import Llheap.Base.Simulation
import Llheap.Proof.Calls

/-!
# What an allocator is for

A program sees a store of objects: at an address that is live there is an object with contents, an alignment and a fill property, and no two objects share a byte. A call makes one object, changes one or takes one away. Nothing here says where storage comes from, or which thread calls: this is the specification, and the routines are compared with it.
-/

namespace Llheap

/-- An allocation as a program sees it. -/
structure Object where
  contents : List UInt8
  alignment : ℕ
  zeroFill : Bool

def Object.size (o : Object) : ℕ := o.contents.length

structure Store where
  at? : ℕ → Option Object
  aligned : ∀ a o, at? a = some o → o.alignment ∣ a
  apart : ∀ a o b p, at? a = some o → at? b = some p → a ≠ b → a + o.size ≤ b ∨ b + p.size ≤ a

def Store.empty : Store where
  at? _ := none
  aligned := by simp
  apart := by simp

/-- The objects at other addresses. -/
def Store.without (S : Store) (addr : Option ℕ) (a : ℕ) : Option Object :=
  if a ∈ addr then none else S.at? a

/-- An object that has just been made. -/
structure Object.IsNew (o : Object) (size alignment : ℕ) (zeroFill : Bool) : Prop where
  size_eq : o.size = size
  alignment_eq : o.alignment = alignment
  zeroFill_eq : o.zeroFill = zeroFill
  zeroed : zeroFill = true → ∀ byte ∈ o.contents, byte = 0

/-- An object that has the contents of `old`, cut off or added to. -/
structure Object.Continues (o old : Object) (size alignment : ℕ) : Prop where
  size_eq : o.size = size
  alignment_eq : o.alignment = alignment
  zeroFill_eq : o.zeroFill = old.zeroFill
  kept : old.contents.take size <+: o.contents
  zeroed : old.zeroFill = true → ∀ byte ∈ o.contents.drop old.size, byte = 0

/-- The alignment that a program gets. -/
def alignedTo (alignment size : ℕ) : ℕ := if size = 0 then libAlign else max alignment libAlign

/-- What a call does with an old object, if it is given one, to return `o`. -/
def Call.Makes (old : Option Object) (o : Object) : Call → Prop
  | .malloc size => o.IsNew size libAlign false
  | .calloc dimension elemSize => o.IsNew (dimension * elemSize % 2 ^ 64) libAlign true
  | .memalign alignment size => o.IsNew size (alignedTo alignment size) false
  | .cmemalign alignment dimension elemSize =>
    let size := dimension * elemSize % 2 ^ 64
    o.IsNew size (alignedTo alignment size) true
  | .resize _ size => o.IsNew size libAlign false
  | .alignedResize _ nalignment size => o.IsNew size (alignedTo nalignment size) false
  | .realloc _ size => match old with
    | none => o.IsNew size libAlign false
    | some old => o.Continues old size old.alignment
  | .alignedRealloc _ nalignment size => match old with
    | none => o.IsNew size (alignedTo nalignment size) false
    | some old => o.Continues old size (alignedTo nalignment size)

/-- What a program sees happen. -/
inductive Event
  | call (c : Call) (r : Option ℕ)
  | usableSize (addr : Option ℕ) (size : ℕ)
  | free (addr : Option ℕ)
  | write (addr offset : ℕ) (byte : UInt8)

/-- The address that is given to the allocator, or written to. -/
def Event.addr : Event → Option ℕ
  | .call c _ => c.oaddr
  | .usableSize addr _ | .free addr => addr
  | .write addr _ _ => some addr

/-- A call that is refused may have recorded the alignment that it was asked for. -/
def Call.RefusedIn (S S' : Store) : Call → Prop
  | .alignedRealloc (some addr) nalignment _ => ∃ o alignment, S.at? addr = some o ∧
      (alignment = o.alignment ∨ alignment = max nalignment libAlign) ∧
      S'.at? = Function.update S.at? addr (some { o with alignment := alignment })
  | _ => S'.at? = S.at?

def Store.Step (S : Store) : Event → Store → Prop
  | .call c (some user), S' => S.without c.oaddr user = none ∧
      ∃ o, c.Makes (c.oaddr.bind S.at?) o ∧ S'.at? = Function.update (S.without c.oaddr) user (some o)
  | .call c none, S' => if c.gives none then S'.at? = S.without c.oaddr else c.RefusedIn S S'
  | .usableSize none size, S' => size = 0 ∧ S'.at? = S.at?
  | .usableSize (some addr) size, S' => ∃ o o', S.at? addr = some o ∧ o'.size = size ∧
      o.contents <+: o'.contents ∧ o'.alignment = o.alignment ∧ o'.zeroFill = o.zeroFill ∧
      S'.at? = Function.update S.at? addr (some o')
  | .free addr, S' => S'.at? = S.without addr
  | .write addr offset byte, S' => ∃ o, S.at? addr = some o ∧ offset < o.size ∧
      S'.at? = Function.update S.at? addr (some { o with contents := o.contents.set offset byte })

def Store.system : TransitionSystem Store Event where
  init S := S = Store.empty
  step := Store.Step

variable {S S' : Store} {e : Event} {a : ℕ} {o : Object} {addr : Option ℕ}

theorem Store.without_of_notMem (h : a ∉ addr) : S.without addr a = S.at? a := if_neg h

theorem Call.RefusedIn.others {c : Call} (h : c.RefusedIn S S') (hne : a ∉ c.oaddr) : S'.at? a = S.at? a := by
  cases c with
  | alignedRealloc oaddr nalignment size =>
    cases oaddr with
    | none => exact congrFun h a
    | some addr =>
      obtain ⟨_, _, _, _, heq⟩ := h
      rw [heq, Function.update_of_ne]
      rintro rfl
      exact hne rfl
  | _ => exact congrFun h a

theorem Store.Step.others (h : S.Step e S') (ha : S.at? a = some o) (hne : a ∉ e.addr) : S'.at? a = some o := by
  have hupdate : ∀ {b : ℕ} {x : Option Object}, b ∈ e.addr → S'.at? = Function.update S.at? b x → S'.at? a = some o := by
    intro b x hb heq
    rw [heq, Function.update_of_ne, ha]
    rintro rfl
    exact hne hb
  cases e with
  | call c r =>
    have hkeep : S.without c.oaddr a = some o := (without_of_notMem hne).trans ha
    cases r with
    | some user =>
      obtain ⟨hfresh, o', _, heq⟩ := h
      rw [heq, Function.update_of_ne, hkeep]
      rintro rfl
      rw [hkeep] at hfresh
      cases hfresh
    | none =>
      simp only [Step] at h
      split at h
      · rw [h, hkeep]
      · rw [h.others hne, ha]
  | usableSize addr size =>
    cases addr with
    | none => exact (congrFun h.2 a).trans ha
    | some b =>
      obtain ⟨_, _, _, _, _, _, _, heq⟩ := h
      exact hupdate rfl heq
  | free addr =>
    have heq : S'.at? = S.without addr := h
    exact (congrFun heq a).trans ((without_of_notMem hne).trans ha)
  | write b offset byte =>
    obtain ⟨_, _, _, heq⟩ := h
    exact hupdate rfl heq

/-- An object stays what it is for as long as nobody names it. -/
theorem Store.others_run {es : List Event} (h : Store.system.Run TransitionSystem.labels S es S')
    (ha : S.at? a = some o) (hne : ∀ e ∈ es, a ∉ e.addr) : S'.at? a = some o := by
  induction h with
  | refl S => exact ha
  | step hs _ ih =>
    exact ih (hs.others ha (hne _ List.mem_cons_self)) fun e he => hne e (List.mem_cons_of_mem _ he)

/-! ### What an event does not name -/

/-- `S` is `S₀` but at the addresses of `C`: an object of `S₀` there is hidden in `S`, or is there with the same size. -/
structure Store.Masks (C : ℕ → Prop) (S₀ S : Store) : Prop where
  same : ∀ a, ¬ C a → S.at? a = S₀.at? a
  taken : ∀ a, C a → S₀.at? a ≠ none
  fits : ∀ a o, C a → S.at? a = some o → ∃ o₀, S₀.at? a = some o₀ ∧ o.size = o₀.size

/-- Objects that are hidden, or changed in place, leave the others where they are. -/
theorem Store.exists_masked (S₀ : Store) {f : ℕ → Option Object} (h : ∀ a o, f a = some o →
    o.alignment ∣ a ∧ ∃ o₀, S₀.at? a = some o₀ ∧ o.size = o₀.size) : ∃ S : Store, S.at? = f := by
  refine ⟨⟨f, fun a o ho => (h a o ho).1, fun a o b p ho hp hne => ?_⟩, rfl⟩
  obtain ⟨_, o₀, ho₀, hsize⟩ := h a o ho
  obtain ⟨_, p₀, hp₀, hsize'⟩ := h b p hp
  rw [hsize, hsize']
  exact S₀.apart a o₀ b p₀ ho₀ hp₀ hne

section Frame

variable {C : ℕ → Prop} {S₀ S₀' : Store}

theorem Store.Masks.update {b : ℕ} {x : Option Object} (hmask : Masks C S₀ S) (hb : ¬ C b)
    (hsame : ∀ a, ¬ C a → S'.at? a = S₀'.at? a) (hkept : ∀ a, C a → S'.at? a = S.at? a)
    (h : S₀'.at? = Function.update S₀.at? b x) : S'.at? = Function.update S.at? b x := by
  funext a
  by_cases ha : a = b
  · subst a
    rw [hsame b hb, h, Function.update_self, Function.update_self]
  · rw [Function.update_of_ne ha]
    by_cases hC : C a
    · exact hkept a hC
    · rw [hsame a hC, h, Function.update_of_ne ha, hmask.same a hC]

theorem Store.Masks.without (hmask : Masks C S₀ S) (hC : ¬ C a) :
    S.without addr a = S₀.without addr a := by
  unfold Store.without
  split
  · rfl
  · exact hmask.same a hC

theorem Store.Masks.removed (hmask : Masks C S₀ S) (hne : ∀ a ∈ addr, ¬ C a)
    (hsame : ∀ a, ¬ C a → S'.at? a = S₀'.at? a) (hkept : ∀ a, C a → S'.at? a = S.at? a)
    (h : S₀'.at? = S₀.without addr) : S'.at? = S.without addr := by
  funext a
  by_cases hC : C a
  · rw [hkept a hC, without_of_notMem fun ha => hne a ha hC]
  · rw [hsame a hC, h, hmask.without hC]

theorem Store.Masks.refused {c : Call} (hmask : Masks C S₀ S) (hne : ∀ a ∈ c.oaddr, ¬ C a)
    (hsame : ∀ a, ¬ C a → S'.at? a = S₀'.at? a) (hkept : ∀ a, C a → S'.at? a = S.at? a)
    (h : c.RefusedIn S₀ S₀') : c.RefusedIn S S' := by
  have hnone : S₀'.at? = S₀.at? → S'.at? = S.at? := by
    intro heq
    funext a
    by_cases hC : C a
    · exact hkept a hC
    · rw [hsame a hC, heq, hmask.same a hC]
  cases c with
  | alignedRealloc oaddr nalignment size =>
    cases oaddr with
    | none => exact hnone h
    | some addr =>
      obtain ⟨o, alignment, ho, hal, heq⟩ := h
      exact ⟨o, alignment, (hmask.same addr (hne addr rfl)).trans ho, hal, hmask.update (hne addr rfl) hsame hkept heq⟩
  | _ => exact hnone h

theorem Store.Masks.returned {c : Call} {user : ℕ} (hmask : Masks C S₀ S) (hne : ∀ a ∈ c.oaddr, ¬ C a)
    (hsame : ∀ a, ¬ C a → S'.at? a = S₀'.at? a) (hkept : ∀ a, C a → S'.at? a = S.at? a)
    (h : S₀.Step (.call c (some user)) S₀') : S.Step (.call c (some user)) S' := by
  obtain ⟨hfresh, o, hmakes, heq⟩ := h
  have huser : ¬ C user := by
    intro hC
    apply hmask.taken user hC
    rwa [without_of_notMem fun hu => hne user hu hC] at hfresh
  refine ⟨(hmask.without huser).trans hfresh, o, ?_, ?_⟩
  · have hold : c.oaddr.bind S.at? = c.oaddr.bind S₀.at? := by
      cases hu : c.oaddr with
      | none => rfl
      | some u => exact hmask.same u (hne u hu)
    rwa [hold]
  · funext a
    by_cases ha : a = user
    · subst a
      rw [hsame user huser, heq, Function.update_self, Function.update_self]
    · rw [Function.update_of_ne ha]
      by_cases hC : C a
      · rw [hkept a hC, without_of_notMem fun hu => hne a hu hC]
      · rw [hsame a hC, heq, Function.update_of_ne ha, hmask.without hC]

theorem Store.Masks.step (hmask : Masks C S₀ S) (h : S₀.Step e S₀') (hne : ∀ a ∈ e.addr, ¬ C a)
    (hsame : ∀ a, ¬ C a → S'.at? a = S₀'.at? a) (hkept : ∀ a, C a → S'.at? a = S.at? a) : S.Step e S' := by
  cases e with
  | call c r =>
    cases r with
    | some user => exact hmask.returned hne hsame hkept h
    | none =>
      simp only [Step] at h ⊢
      split
      · next hgives =>
        rw [if_pos hgives] at h
        exact hmask.removed hne hsame hkept h
      · next hgives =>
        rw [if_neg hgives] at h
        exact hmask.refused hne hsame hkept h
  | usableSize addr size =>
    cases addr with
    | none =>
      refine ⟨h.1, ?_⟩
      funext a
      by_cases hC : C a
      · exact hkept a hC
      · rw [hsame a hC, h.2, hmask.same a hC]
    | some b =>
      obtain ⟨o, o', ho, hsize, hprefix, hal, hz, heq⟩ := h
      have hb := hne b rfl
      exact ⟨o, o', (hmask.same b hb).trans ho, hsize, hprefix, hal, hz, hmask.update hb hsame hkept heq⟩
  | free addr => exact hmask.removed hne hsame hkept h
  | write b offset byte =>
    obtain ⟨o, ho, hlt, heq⟩ := h
    have hb := hne b rfl
    exact ⟨o, (hmask.same b hb).trans ho, hlt, hmask.update hb hsame hkept heq⟩

/-- An event goes as well if objects that it does not name are hidden or have other contents, and leaves them so. -/
theorem Store.Step.frame (h : S₀.Step e S₀') (hmask : Masks C S₀ S) (hne : ∀ a ∈ e.addr, ¬ C a) :
    ∃ S', S.Step e S' ∧ Masks C S₀' S' ∧ ∀ a, C a → S'.at? a = S.at? a := by
  classical
  have hkeep : ∀ a o₀, C a → S₀.at? a = some o₀ → S₀'.at? a = some o₀ :=
    fun a o₀ hC ho₀ => h.others ho₀ fun ha => hne a ha hC
  have hfits : ∀ a o, C a → S.at? a = some o → ∃ o₀, S₀'.at? a = some o₀ ∧ o.size = o₀.size := by
    intro a o hC ho
    obtain ⟨o₀, ho₀, hsize⟩ := hmask.fits a o hC ho
    exact ⟨o₀, hkeep a o₀ hC ho₀, hsize⟩
  obtain ⟨S', hS'⟩ := S₀'.exists_masked (f := fun a => if C a then S.at? a else S₀'.at? a) <| by
    intro a o ho
    split at ho
    · next hC => exact ⟨S.aligned a o ho, hfits a o hC ho⟩
    · exact ⟨S₀'.aligned a o ho, o, ho, rfl⟩
  have hsame : ∀ a, ¬ C a → S'.at? a = S₀'.at? a := fun a hC => (congrFun hS' a).trans (if_neg hC)
  have hkept : ∀ a, C a → S'.at? a = S.at? a := fun a hC => (congrFun hS' a).trans (if_pos hC)
  refine ⟨S', hmask.step h hne hsame hkept, ⟨hsame, fun a hC => ?_, fun a o hC ho => ?_⟩, hkept⟩
  · obtain ⟨o₀, ho₀⟩ := Option.ne_none_iff_exists'.mp (hmask.taken a hC)
    rw [hkeep a o₀ hC ho₀]
    exact Option.some_ne_none o₀
  · exact hfits a o hC ((hkept a hC).symm.trans ho)

theorem Store.frame_run {es : List Event} (h : Store.system.Run TransitionSystem.labels S₀ es S₀')
    (hmask : Masks C S₀ S) (hne : ∀ e ∈ es, ∀ a ∈ e.addr, ¬ C a) :
    ∃ S', Store.system.Run TransitionSystem.labels S es S' ∧ Masks C S₀' S' ∧ ∀ a, C a → S'.at? a = S.at? a := by
  induction h generalizing S with
  | refl S₀ => exact ⟨S, .refl S, hmask, fun _ _ => rfl⟩
  | step hs _ ih =>
    obtain ⟨S₁, hs₁, hmask₁, hkept₁⟩ := Store.Step.frame hs hmask (hne _ List.mem_cons_self)
    obtain ⟨S₂, hrun, hmask₂, hkept₂⟩ := ih hmask₁ fun e he => hne e (List.mem_cons_of_mem _ he)
    exact ⟨S₂, .step hs₁ hrun, hmask₂, fun a hC => (hkept₂ a hC).trans (hkept₁ a hC)⟩

end Frame

end Llheap
