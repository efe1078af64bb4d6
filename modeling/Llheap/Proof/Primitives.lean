import Llheap.Proof.Refines

/-!
# Moving one piece

Every change that `doMalloc` and `doFree` make to buckets, buffers and headers gives one piece another tag or cuts one. Two rules say when the state still refines the arena, one for blocks and one for buffers; the primitives are instances.
-/

namespace Llheap

variable {cfg : Config} {main : Tid} {k : Kernel cfg} {t : Tid} {s s' : State}
  {status : Tid → Status} {A A' : Arena Tag} {idle : List ℕ} {b n m u f h : ℕ} {v : View} {p : Piece Tag}
  {tag : Tag}

/-- A block: storage that a request gets or could get. -/
inductive Tag.IsBlock : Tag → Prop
  | free {f : ℕ} : IsBlock (.free f)
  | held : IsBlock .held
  | live {u : ℕ} {v : View} : IsBlock (.live u v)

theorem Tag.IsBlock.ne_bump (ht : tag.IsBlock) : .bump h ≠ tag := by
  rintro rfl
  cases ht

theorem Tag.IsBlock.ne_heap (ht : tag.IsBlock) {tag' : Tag} (h : tag' = .heap ∨ tag' = .spare) :
    tag' ≠ tag := by
  rintro rfl
  rcases h with rfl | rfl <;> cases ht

theorem eqOn_of_outside {mem mem' : Memory} (hb : A.at? b = some p)
    (hmem : ∀ x, x < b ∨ b + p.len ≤ x → mem' x = mem x) {c : ℕ} {q : Piece Tag}
    (hc : A.at? c = some q) (hne : c ≠ b) : Set.EqOn mem' mem (Set.Ico c (c + q.len)) := by
  intro x hx
  have := A.separate c q b p hc hb hne
  exact hmem x (by have := hx.1; have := hx.2; omega)

/-! ### Blocks -/

theorem Refines.retag (hr : Refines cfg main s status A idle) (hb : A.at? b = some p)
    (hold : p.tag.IsBlock) (hnew : tag.IsBlock) {mem : Memory} {freeHeader : ℕ → FreeHeader}
    (hmem : ∀ x, x < b ∨ b + p.len ≤ x → mem x = s.mem x)
    (hsame : ∀ f, .free f ≠ p.tag → .free f ≠ tag → freeHeader f = s.freeHeader f)
    (hbucket : ∀ h f n, IsBucket s.heapMaster h f n → .free f = p.tag ∨ .free f = tag →
      Bucket { s with mem := mem, freeHeader := freeHeader } (A.retag b tag) h f n)
    (hfree : ∀ f, tag = .free f → ∃ h, IsBucket s.heapMaster h f p.len)
    (hlive : ∀ u v, tag = .live u v →
      LiveBlock cfg { s with mem := mem, freeHeader := freeHeader } b p.len u v) :
    Refines cfg main { s with mem := mem, freeHeader := freeHeader } status (A.retag b tag) idle := by
  have hother : ∀ c q, A.at? c = some q → c ≠ b → Set.EqOn mem s.mem (Set.Ico c (c + q.len)) :=
    fun c q hc hne => eqOn_of_outside hb hmem hc hne
  refine ⟨hr.booted, hr.ready, ⟨hr.heaps.laid.retag hb, hr.heaps.pieces.congr fun c q hq =>
      Arena.at?_retag_of_tag hb (hold.ne_heap hq) (hnew.ne_heap hq),
    hr.heaps.owned.of_same (.of_storage fun _ => rfl)⟩,
    ⟨hr.blocks.page, hr.blocks.crossover, hr.blocks.threadBlock, hr.blocks.inUser,
      fun h f n hf => ?_, fun c n f hc => ?_, fun c n h => ?_, fun c n u v hc => ?_⟩⟩
  · by_cases hin : .free f = p.tag ∨ .free f = tag
    · exact hbucket h f n hf hin
    · rw [not_or] at hin
      have hlen := hf.le_len
      refine (hr.blocks.bucket h f n hf).congr (by omega) (hsame f hin.1 hin.2) (fun c hc => ?_)
        fun c => Arena.at?_retag_of_tag hb hin.1 hin.2
      refine hother c _ hc ?_
      rintro rfl
      exact hin.1 (congrArg Piece.tag (Option.some.inj (hc.symm.trans hb)))
  · rcases (Arena.at?_retag_eq_some hb).mp hc with ⟨_, heq⟩ | ⟨_, hc⟩
    · obtain ⟨rfl, htag⟩ := Piece.mk.inj heq
      exact hfree f htag.symm
    · exact hr.blocks.free c n f hc
  · exact (Arena.at?_retag_of_tag hb hold.ne_bump hnew.ne_bump).trans (hr.blocks.bump c n h)
  · rcases (Arena.at?_retag_eq_some hb).mp hc with ⟨rfl, heq⟩ | ⟨hne, hc⟩
    · obtain ⟨rfl, htag⟩ := Piece.mk.inj heq
      exact hlive u v htag.symm
    · exact (hr.blocks.live c n u v hc).congr (hother c _ hc hne) fun _ hh => hh

theorem Refines.take (hr : Refines cfg main s status A idle) (hf : IsBucket s.heapMaster h f n)
    {own remote own' remote' : List ℕ} {f' : FreeHeader} (hnodup : (own ++ remote).Nodup)
    (hmem : ∀ c, c ∈ own ++ remote ↔ A.at? c = some ⟨n, .free f⟩)
    (hperm : (own ++ remote).Perm (b :: (own' ++ remote')))
    (hhome : f'.homeManager = (s.freeHeader f).homeManager)
    (hsize : f'.blockSize = (s.freeHeader f).blockSize) (hown : Chain s.mem.word f'.freeList own')
    (hremote : Chain s.mem.word f'.remoteList remote') :
    A.at? b = some ⟨n, .free f⟩ ∧ Refines cfg main (popped f f' s) status (A.retag b .held) idle := by
  have hb : A.at? b = some ⟨n, .free f⟩ := (hmem b).mp (hperm.mem_iff.mpr List.mem_cons_self)
  have hnodup' := List.nodup_cons.mp (hperm.nodup_iff.mp hnodup)
  refine ⟨hb, hr.retag hb .free .held (fun _ _ => rfl) (fun g hg _ => ?_) (fun h' g n' hg hin => ?_)
    nofun nofun⟩
  · exact Function.update_of_ne (fun hgf => hg (by rw [hgf])) _ _
  · obtain rfl : g = f := by
      rcases hin with hin | hin
      · exact Tag.free.inj hin
      · cases hin
    obtain ⟨rfl, rfl⟩ := hg.unique hr.heaps.pieces hf
    have hold := hr.blocks.bucket _ g _ hf
    have hself : Function.update s.freeHeader g f' g = f' := Function.update_self ..
    refine ⟨?_, ?_, own', remote', ?_, ?_, hnodup'.2, fun c => ?_⟩
    · dsimp only
      rw [hself, hhome, hold.home]
    · dsimp only
      rw [hself, hsize, hold.blockSize]
    · dsimp only
      rw [hself]
      exact hown
    · dsimp only
      rw [hself]
      exact hremote
    · rw [Arena.at?_retag_eq_some hb, ← hmem, hperm.mem_iff, List.mem_cons]
      constructor
      · intro hc
        have hne : c ≠ b := by
          rintro rfl
          exact hnodup'.1 hc
        exact .inr ⟨hne, .inr hc⟩
      · rintro (⟨_, heq⟩ | ⟨hne, hc⟩)
        · cases heq
        · exact hc.resolve_left hne

theorem Refines.pop (hr : Refines cfg main s status A idle) (hf : IsBucket s.heapMaster h f n)
    (hne : (s.freeHeader f).freeList ≠ 0) :
    A.at? (s.freeHeader f).freeList = some ⟨n, .free f⟩ ∧
      Refines cfg main
        (popped f { s.freeHeader f with freeList := s.mem.word (s.freeHeader f).freeList } s) status
        (A.retag (s.freeHeader f).freeList .held) idle := by
  obtain ⟨own, remote, hown, hremote, hnodup, hmem⟩ := (hr.blocks.bucket h f n hf).listed
  obtain ⟨rest, rfl, hrest⟩ := hown.exists_cons hne
  exact hr.take hf hnodup hmem (.refl _) rfl rfl hrest hremote

/-- The remote list becomes the owner's list, and its first block is taken. -/
theorem Refines.grab (hr : Refines cfg main s status A idle) (hf : IsBucket s.heapMaster h f n)
    (hfree : (s.freeHeader f).freeList = 0) (hne : (s.freeHeader f).remoteList ≠ 0) :
    A.at? (s.freeHeader f).remoteList = some ⟨n, .free f⟩ ∧
      Refines cfg main (popped f { s.freeHeader f with
        remoteList := 0, freeList := s.mem.word (s.freeHeader f).remoteList } s) status
        (A.retag (s.freeHeader f).remoteList .held) idle := by
  obtain ⟨own, remote, hown, hremote, hnodup, hmem⟩ := (hr.blocks.bucket h f n hf).listed
  obtain rfl := Chain.of_null (hfree ▸ hown)
  obtain ⟨rest, rfl, hrest⟩ := hremote.exists_cons hne
  have hperm : ([] ++ (s.freeHeader f).remoteList :: rest).Perm
      ((s.freeHeader f).remoteList :: (rest ++ [])) := by
    rw [List.append_nil, List.nil_append]
  exact hr.take hf hnodup hmem hperm rfl rfl hrest rfl

theorem Refines.push (hr : Refines cfg main s status A idle) (hf : IsBucket s.heapMaster h f n)
    (hb : A.at? b = some ⟨n, tag⟩) (hold : tag.IsBlock) (hheld : ∀ g, tag ≠ .free g) (l : ListField) :
    Refines cfg main (s.push l f b) status (A.retag b (.free f)) idle := by
  have hlen := hf.le_len
  have hbucket := hr.blocks.bucket h f n hf
  obtain ⟨own, remote, hown, hremote, hnodup, hmem⟩ := hbucket.listed
  have hnot : b ∉ own ++ remote := by
    intro hin
    rw [hmem, hb] at hin
    exact hheld f (Piece.mk.inj (Option.some.inj hin)).2
  have hlink : ∀ c ∈ own ++ remote,
      (s.mem.setWord b ((s.freeHeader f).top l)).word c = s.mem.word c := by
    intro c hc
    have := A.separate c _ b _ ((hmem c).mp hc) hb (by rintro rfl; exact hnot hc)
    exact Memory.word_setWord_of_disjoint (by dsimp only at this; omega)
  have hb0 : b ≠ 0 := (hr.heaps.laid.pos b _ hb).ne'
  have htop : (s.mem.setWord b ((s.freeHeader f).top l)).word b = (s.freeHeader f).top l := by
    apply Memory.word_setWord_self
    have hlt : ∀ {a : ℕ} {L : List ℕ}, Chain s.mem.word a L → (∀ c ∈ L, c ∈ own ++ remote) → a < 2 ^ 64 := by
      intro a L hchain hsub
      rcases Nat.eq_zero_or_pos a with rfl | hpos
      · decide
      · obtain ⟨rest, rfl, _⟩ := hchain.exists_cons hpos.ne'
        have hin := hsub a List.mem_cons_self
        have := hr.blocks.end_le hr.heaps.laid ((hmem a).mp hin)
        dsimp only at this
        omega
    cases l
    · exact hlt hown fun c => List.mem_append_left _
    · exact hlt hremote fun c => List.mem_append_right _
  have hiff : ∀ c, c = b ∨ c ∈ own ++ remote ↔ (A.retag b (.free f)).at? c = some ⟨n, .free f⟩ := by
    intro c
    rw [Arena.at?_retag_eq_some hb, hmem]
    constructor
    · rintro (rfl | hc)
      · exact .inl ⟨rfl, rfl⟩
      · refine .inr ⟨?_, hc⟩
        rintro rfl
        exact hnot ((hmem c).mpr hc)
    · rintro (⟨rfl, _⟩ | ⟨_, hc⟩)
      · exact .inl rfl
      · exact .inr hc
  refine hr.retag hb hold .free (fun x hx => Memory.setWord_apply_of_outside (by dsimp only at hx; omega))
    (fun g _ hg => Function.update_of_ne (fun hgf => hg (by rw [hgf])) _ _) (fun h' g n' hg hin => ?_)
    (fun g hg => ⟨h, Tag.free.inj hg ▸ hf⟩) nofun
  obtain rfl : g = f := by
    rcases hin with hin | hin
    · exact absurd hin.symm (hheld g)
    · exact Tag.free.inj hin
  obtain ⟨rfl, rfl⟩ := hg.unique hr.heaps.pieces hf
  refine ⟨?_, ?_, ?_⟩ <;> dsimp only <;> rw [Function.update_self]
  · rw [FreeHeader.homeManager_setTop, hbucket.home]
  · rw [FreeHeader.blockSize_setTop, hbucket.blockSize]
  cases l with
  | freeList =>
    refine ⟨b :: own, remote, hown.push hb0 htop fun c hc => hlink c (List.mem_append_left _ hc),
      hremote.congr fun c hc => hlink c (List.mem_append_right _ hc), ?_, fun c => ?_⟩
    · exact List.nodup_cons.mpr ⟨hnot, hnodup⟩
    · rw [List.cons_append, List.mem_cons]
      exact hiff c
  | remoteList =>
    refine ⟨own, b :: remote, hown.congr fun c hc => hlink c (List.mem_append_left _ hc),
      hremote.push hb0 htop fun c hc => hlink c (List.mem_append_right _ hc), ?_, fun c => ?_⟩
    · exact List.nodup_middle.mpr (List.nodup_cons.mpr ⟨hnot, hnodup⟩)
    · rw [List.mem_append, List.mem_cons, or_left_comm, ← List.mem_append]
      exact hiff c

theorem Refines.setLive (hr : Refines cfg main s status A idle) (hb : A.at? b = some p)
    (hold : p.tag.IsBlock) (hheld : ∀ g, p.tag ≠ .free g) {mem : Memory}
    (hmem : ∀ x, x < b ∨ b + p.len ≤ x → mem x = s.mem x)
    (hlive : LiveBlock cfg { s with mem := mem } b p.len u v) :
    Refines cfg main { s with mem := mem } status (A.retag b (.live u v)) idle := by
  refine hr.retag hb hold .live hmem (fun _ _ _ => rfl)
    (fun h f n _ hin => ?_) nofun fun u' v' heq => ?_
  · rcases hin with hin | hin
    · exact absurd hin.symm (hheld f)
    · cases hin
  · obtain ⟨rfl, rfl⟩ := Tag.live.inj heq
    exact hlive

end Llheap
