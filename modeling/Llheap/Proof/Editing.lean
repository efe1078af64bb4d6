import Llheap.Proof.Freeing

/-!
# Changing a live allocation in place

Writes to an allocation's contents, and the edits of its headers that the routines make. Each changes the bytes of one live block, and what the headers record in one or two fields.
-/

namespace Llheap

variable {cfg : Config} {main : Tid} {k : Kernel cfg} {t : Tid} {s s' : State}
  {status : Tid → Status} {A A' : Arena Tag} {idle : List ℕ} {b n u h size : ℕ} {v : View} {l : Live}

theorem Encodes.of_contents {m m' : Memory} (henc : Encodes m b n u v) (hmem : ∀ x < u, m' x = m x) :
    Encodes m' b n u v := by
  obtain ⟨hafter, hfake⟩ := henc.user_after
  refine henc.congr (fun x hx => hmem x ?_) fun hs x hx => hmem x ?_
  · have := hx.2
    omega
  · have := hx.2
    have := hfake hs
    omega

theorem Refines.editView (hr : Refines cfg main s status A idle) (hb : liveAt A b = some l)
    {mem : Memory} (henc : Encodes mem b l.len l.user v)
    (hmem : ∀ x, x < b ∨ b + l.len ≤ x → mem x = s.mem x) (hv : v.Taggable l.len)
    (hroom : l.user + v.size ≤ b + l.len)
    (halign : ∀ a ∈ v.alignment, a.isPowerOfTwo ∧ libAlign ≤ a ∧ a ∣ l.user)
    (horigin : v.origin = l.view.origin) :
    ∃ A', Refines cfg main { s with mem := mem } status A' idle ∧
      liveAt A' = Function.update (liveAt A) b (some ⟨l.len, l.user, v⟩) ∧
      Frame (Function.update (liveAt A) b none) s { s with mem := mem } := by
  obtain ⟨hblock, _⟩ := hr.liveBlock hb
  exact hr.edit hb hmem
    ⟨henc, hv, hroom, halign, horigin ▸ hblock.bucket, horigin ▸ hblock.mapped⟩

theorem Refines.writeContents (hr : Refines cfg main s status A idle) (hb : liveAt A b = some l)
    {mem : Memory} (hmem : ∀ x, x < l.user ∨ b + l.len ≤ x → mem x = s.mem x) :
    ∃ A', Refines cfg main { s with mem := mem } status A' idle ∧ liveAt A' = liveAt A ∧
      Frame (Function.update (liveAt A) b none) s { s with mem := mem } := by
  obtain ⟨hblock, _⟩ := hr.liveBlock hb
  have hafter := hblock.encodes.user_after.1
  obtain ⟨A', hr', hlive, hframe⟩ := hr.editView hb
    (hblock.encodes.of_contents fun x hx => hmem x (.inl hx)) (fun x hx => hmem x (by omega))
    hblock.taggable hblock.room hblock.aligned rfl
  exact ⟨A', hr', hlive.trans (by rw [← hb, Function.update_eq_self]), hframe⟩

/-! ### Marking as zero filled -/

theorem Refines.zeroFill (hr : Refines cfg main s status A idle) (hb : liveAt A b = some l)
    (hsize : l.user + size ≤ b + l.len) :
    ∃ A', Refines cfg main (zeroFill l.user b size s) status A' idle ∧
      liveAt A' = Function.update (liveAt A) b (some { l with view := { l.view with zeroFill := true } }) ∧
      Frame (Function.update (liveAt A) b none) s (zeroFill l.user b size s) ∧
      ∀ x, l.user ≤ x → x < l.user + size → (l.view.origin = .mapped → s.mem x = 0) →
        (zeroFill l.user b size s).mem x = 0 := by
  obtain ⟨hblock, _⟩ := hr.liveBlock hb
  have hafter := hblock.encodes.user_after.1
  have henc : Encodes (if mmappedBit (s.mem.word b) = 0 then s.mem.fill l.user size 0 else s.mem) b l.len
      l.user l.view := by
    split
    · exact hblock.encodes.of_contents fun x hx => Memory.fill_apply_of_outside (.inl hx)
    · exact hblock.encodes
  have hmem : ∀ x, x < b ∨ b + l.len ≤ x → (Llheap.zeroFill l.user b size s).mem x = s.mem x := by
    intro x hx
    rw [Llheap.zeroFill]
    dsimp only
    rw [Memory.setWord_apply_of_outside (by omega)]
    split
    · exact Memory.fill_apply_of_outside (by omega)
    · rfl
  obtain ⟨A', hr', hlive, hframe⟩ := hr.editView hb (henc.markZeroFilled hblock.taggable) hmem
    (hblock.taggable.withZeroFill true) hblock.room hblock.aligned rfl
  refine ⟨A', hr', hlive, hframe, fun x hx hlt hmapped => ?_⟩
  rw [Llheap.zeroFill]
  dsimp only
  rw [Memory.setWord_apply_of_outside (by omega)]
  split
  · exact Memory.fill_apply_of_inside ⟨hx, hlt⟩
  · next hbit =>
    rw [hblock.encodes.home] at hbit
    exact hmapped ((View.mmappedBit hblock.taggable).mp hbit)

/-! ### Sizes and alignments -/

theorem Refines.resizeInPlace (hr : Refines cfg main s status A idle) (hb : liveAt A b = some l)
    (hsize : l.user + size ≤ b + l.len) :
    ∃ A', Refines cfg main (resizeInPlace b size s) status A' idle ∧
      liveAt A' = Function.update (liveAt A) b
        (some { l with view := { l.view with zeroFill := false, size := size } }) ∧
      Frame (Function.update (liveAt A) b none) s (resizeInPlace b size s) := by
  obtain ⟨hblock, _, hend⟩ := hr.liveBlock hb
  have hafter := hblock.encodes.user_after.1
  have hlt : size < 2 ^ 64 := by omega
  exact hr.editView hb ((hblock.encodes.clearZeroFill hblock.taggable).setSize hlt)
    (fun x hx => by
      rw [Memory.setWord_apply_of_outside (by rw [sizeField]; omega),
        Memory.setWord_apply_of_outside (by omega)])
    ((hblock.taggable.withZeroFill false).withSize hlt) hsize hblock.aligned rfl

theorem Refines.reallocInPlace (hr : Refines cfg main s status A idle) (hb : liveAt A b = some l)
    (hsize : l.user + size ≤ b + l.len) :
    ∃ A', Refines cfg main (reallocInPlace l.user b size s) status A' idle ∧
      liveAt A' = Function.update (liveAt A) b (some { l with view := { l.view with size := size } }) ∧
      Frame (Function.update (liveAt A) b none) s (reallocInPlace l.user b size s) ∧
      (∀ x, l.user ≤ x → x < l.user + l.view.size →
        (reallocInPlace l.user b size s).mem x = s.mem x) ∧
      (l.view.zeroFill → ∀ x, l.user + l.view.size ≤ x → x < l.user + size →
        (reallocInPlace l.user b size s).mem x = 0) := by
  obtain ⟨hblock, _, hend⟩ := hr.liveBlock hb
  have hafter := hblock.encodes.user_after.1
  have hlt : size < 2 ^ 64 := by omega
  have hzf := View.zeroFillBit hblock.taggable
  have henc := hblock.encodes.setSize hlt
  rw [reallocInPlace_eq, regrown]
  dsimp only
  rw [hblock.encodes.home, hblock.encodes.size]
  have hset : ∀ x, x < b ∨ b + 16 ≤ x → (s.mem.setWord (sizeField b) size) x = s.mem x :=
    fun x hx => Memory.setWord_apply_of_outside (by rw [sizeField]; omega)
  split
  · next hgrow =>
    have hfill : ∀ x, x < l.user + l.view.size ∨ l.user + size ≤ x →
        ((s.mem.setWord (sizeField b) size).fill (l.user + l.view.size) (size - l.view.size) 0) x =
          (s.mem.setWord (sizeField b) size) x :=
      fun x hx => Memory.fill_apply_of_outside (by omega)
    obtain ⟨A', hr', hlive, hframe⟩ := hr.editView hb
      (henc.of_contents fun x hx => hfill x (by omega))
      (fun x hx => (hfill x (by omega)).trans (hset x (by omega)))
      (hblock.taggable.withSize hlt) hsize hblock.aligned rfl
    refine ⟨A', hr', hlive, hframe, fun x hx hxl => (hfill x (.inl hxl)).trans (hset x (by omega)),
      fun _ x hx hxs => Memory.fill_apply_of_inside (by omega)⟩
  · next hgrow =>
    obtain ⟨A', hr', hlive, hframe⟩ := hr.editView hb henc (fun x hx => hset x (by omega))
      (hblock.taggable.withSize hlt) hsize hblock.aligned rfl
    refine ⟨A', hr', hlive, hframe, fun x hx _ => hset x (by omega), fun hz x hx hxs => ?_⟩
    exact absurd ⟨hzf.mpr hz, by omega⟩ hgrow

theorem Refines.updateAlignment (hr : Refines cfg main s status A idle) (hb : liveAt A b = some l)
    {a₀ a : ℕ} (hfake : l.view.alignment = some a₀) (hpow : a.isPowerOfTwo) (hle : libAlign ≤ a)
    (hlt : a < 2 ^ 64) (hdvd : a ∣ l.user) :
    ∃ A', Refines cfg main (updateAlignment l.user a s) status A' idle ∧
      liveAt A' = Function.update (liveAt A) b
        (some { l with view := { l.view with alignment := some a } }) ∧
      Frame (Function.update (liveAt A) b none) s (updateAlignment l.user a s) ∧
      ∀ x, l.user ≤ x → (updateAlignment l.user a s).mem x = s.mem x := by
  obtain ⟨hblock, _, hend⟩ := hr.liveBlock hb
  have hafter := hblock.encodes.fake a₀ hfake
  have hroom := hblock.room
  have h8 : 8 ∣ a := word_dvd_of_le hpow hle
  have hset : ∀ x, x < b ∨ l.user ≤ x →
      (s.mem.setWord (headerAddr l.user) (markAlignmentBit a)) x = s.mem x := by
    intro x hx
    rw [sizeofStorage] at hafter
    exact Memory.setWord_apply_of_outside (by rw [headerAddr, sizeofStorage]; omega)
  obtain ⟨A', hr', hlive, hframe⟩ := hr.editView hb
    (hblock.encodes.setAlignment hfake h8 hlt) (fun x hx => hset x (by omega))
    (hblock.taggable.withAlignment h8 hlt) hblock.room (fun c hc => Option.some.inj hc ▸ ⟨hpow, hle, hdvd⟩) rfl
  exact ⟨A', hr', hlive, hframe, fun x hx => hset x (.inr hx)⟩

theorem Refines.usableSize (hr : Refines cfg main s status A idle) (hb : liveAt A b = some l) :
    (mallocUsableSize (some l.user) s).1 = b + l.len - l.user ∧
    ∃ A', Refines cfg main (mallocUsableSize (some l.user) s).2 status A' idle ∧
      liveAt A' = Function.update (liveAt A) b
        (some { l with view := { l.view with size := b + l.len - l.user } }) ∧
      Frame (Function.update (liveAt A) b none) s (mallocUsableSize (some l.user) s).2 ∧
      ∀ x, l.user ≤ x → (mallocUsableSize (some l.user) s).2.mem x = s.mem x := by
  obtain ⟨hblock, _⟩ := hr.liveBlock hb
  obtain ⟨hdata, hafter, hroom, hend⟩ := hr.dataSize hb
  have hlt : b + l.len - l.user < 2 ^ 64 := by omega
  rw [mallocUsableSize]
  dsimp only
  rw [hdata, show (Llheap.headers s l.user).header = b by rw [hr.headers hb]]
  have hset : ∀ x, x < b ∨ b + 16 ≤ x →
      (s.mem.setWord (sizeField b) (b + l.len - l.user)) x = s.mem x :=
    fun x hx => Memory.setWord_apply_of_outside (by rw [sizeField]; omega)
  obtain ⟨A', hr', hlive, hframe⟩ := hr.editView hb
    (hblock.encodes.setSize hlt) (fun x hx => hset x (by omega)) (hblock.taggable.withSize hlt)
    (by dsimp only; omega) hblock.aligned rfl
  exact ⟨rfl, A', hr', hlive, hframe, fun x hx => hset x (by omega)⟩

end Llheap
