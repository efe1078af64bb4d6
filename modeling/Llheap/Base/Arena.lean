import Mathlib.Tactic

/-!
# Arenas

An arena records which half-open intervals of an address space are in use and what each is in use as. Two pieces never overlap: that is a field of the structure, so an arena with overlapping pieces cannot be built, and taking a piece out or putting one into free space are the only two ways to change one. Everything else, giving a piece another tag, cutting it in two, dropping a tail, is made of these.
-/

structure Piece (τ : Type*) where
  len : ℕ
  tag : τ

structure Arena (τ : Type*) where
  at? : ℕ → Option (Piece τ)
  pos : ∀ b p, at? b = some p → 0 < p.len
  separate : ∀ b p c q, at? b = some p → at? c = some q → b ≠ c → b + p.len ≤ c ∨ c + q.len ≤ b

namespace Arena

variable {τ : Type*} {A : Arena τ} {b c n m : ℕ} {p q : Piece τ} {t : τ}

def empty (τ : Type*) : Arena τ where
  at? _ := none
  pos := by simp
  separate := by simp

@[simp] theorem at?_empty (b : ℕ) : (empty τ).at? b = none := rfl

/-- No piece of the arena meets `[b, b + n)`. -/
def Free (A : Arena τ) (b n : ℕ) : Prop :=
  ∀ c q, A.at? c = some q → b + n ≤ c ∨ c + q.len ≤ b

def erase (A : Arena τ) (b : ℕ) : Arena τ where
  at? c := if c = b then none else A.at? c
  pos c q h := by
    split at h
    · cases h
    · exact A.pos c q h
  separate c q d r hc hd hne := by
    split at hc
    · cases hc
    · split at hd
      · cases hd
      · exact A.separate c q d r hc hd hne

def insert (A : Arena τ) (b n : ℕ) (t : τ) (hn : 0 < n) (hfree : A.Free b n) : Arena τ where
  at? c := if c = b then some ⟨n, t⟩ else A.at? c
  pos c q h := by
    split at h
    · cases h
      exact hn
    · exact A.pos c q h
  separate c q d r hc hd hne := by
    split at hc <;> split at hd
    · subst c d
      exact absurd rfl hne
    · subst c
      cases hc
      exact hfree d r hd
    · subst d
      cases hd
      exact (hfree c q hc).symm
    · exact A.separate c q d r hc hd hne

theorem at?_erase (c : ℕ) : (A.erase b).at? c = if c = b then none else A.at? c := rfl

theorem at?_insert {hn : 0 < n} {hfree : A.Free b n} (c : ℕ) :
    (A.insert b n t hn hfree).at? c = if c = b then some ⟨n, t⟩ else A.at? c := rfl

theorem at?_erase_eq_some : (A.erase b).at? c = some q ↔ c ≠ b ∧ A.at? c = some q := by
  rw [at?_erase]
  split
  · next h => simp [h]
  · next h => simp [h]

theorem Free.at?_eq_none (h : A.Free b n) (hn : 0 < n) : A.at? b = none := by
  by_contra hsome
  obtain ⟨q, hq⟩ := Option.ne_none_iff_exists'.mp hsome
  have := h b q hq
  have := A.pos b q hq
  omega

theorem at?_insert_eq_some {hn : 0 < n} {hfree : A.Free b n} :
    (A.insert b n t hn hfree).at? c = some q ↔ (c = b ∧ q = ⟨n, t⟩) ∨ A.at? c = some q := by
  rw [at?_insert]
  split
  · next h =>
    subst c
    simp [hfree.at?_eq_none hn, eq_comm]
  · next h => simp [h]

/-- Two pieces that share an address are the same piece. -/
theorem eq_of_overlap {x : ℕ} (hb : A.at? b = some p) (hc : A.at? c = some q)
    (hxb : b ≤ x ∧ x < b + p.len) (hxc : c ≤ x ∧ x < c + q.len) : b = c := by
  by_contra hne
  have := A.separate b p c q hb hc hne
  omega

theorem Free.mono (h : A.Free b n) (hcb : b ≤ c) (hend : c + m ≤ b + n) : A.Free c m := by
  intro d r hd
  have := h d r hd
  omega

theorem Free.erase (h : A.Free b n) : (A.erase c).Free b n :=
  fun d r hd => h d r (at?_erase_eq_some.mp hd).2

theorem Free.insert {hn : 0 < n} {hfree : A.Free b n} (h : A.Free c m)
    (hapart : c + m ≤ b ∨ b + n ≤ c) : (A.insert b n t hn hfree).Free c m := by
  intro d r hd
  rcases at?_insert_eq_some.mp hd with ⟨rfl, rfl⟩ | hd
  · exact hapart
  · exact h d r hd

theorem free_erase (hb : A.at? b = some p) (hbc : b ≤ c) (hend : c + m ≤ b + p.len) :
    (A.erase b).Free c m := by
  intro d r hd
  obtain ⟨hne, hd⟩ := at?_erase_eq_some.mp hd
  have := A.separate b p d r hb hd (Ne.symm hne)
  omega

/-- The same piece under another tag. -/
def retag (A : Arena τ) (b : ℕ) (t : τ) : Arena τ where
  at? c := if c = b then (A.at? b).map fun p => ⟨p.len, t⟩ else A.at? c
  pos c q h := by
    split at h
    · obtain ⟨p, hp, rfl⟩ := Option.map_eq_some_iff.mp h
      exact A.pos b p hp
    · exact A.pos c q h
  separate c q d r hc hd hne := by
    split at hc <;> split at hd
    · subst c d
      exact absurd rfl hne
    · subst c
      obtain ⟨p, hp, rfl⟩ := Option.map_eq_some_iff.mp hc
      exact A.separate b p d r hp hd hne
    · subst d
      obtain ⟨p, hp, rfl⟩ := Option.map_eq_some_iff.mp hd
      exact A.separate c q b p hc hp hne
    · exact A.separate c q d r hc hd hne

theorem at?_retag_self (hb : A.at? b = some p) : (A.retag b t).at? b = some ⟨p.len, t⟩ := by
  simp [retag, hb]

theorem at?_retag_of_ne (h : c ≠ b) : (A.retag b t).at? c = A.at? c := if_neg h

theorem retag_same (hb : A.at? b = some p) : A.retag b p.tag = A := by
  have hat : (A.retag b p.tag).at? = A.at? := by
    funext c
    by_cases hc : c = b
    · subst c
      rw [at?_retag_self hb, hb]
    · exact at?_retag_of_ne hc
  rw [← mk.injEq] at hat
  exact hat

theorem at?_retag_eq_some (hb : A.at? b = some p) :
    (A.retag b t).at? c = some q ↔ (c = b ∧ q = ⟨p.len, t⟩) ∨ (c ≠ b ∧ A.at? c = some q) := by
  by_cases h : c = b
  · subst c
    simp [at?_retag_self hb, eq_comm]
  · simp [at?_retag_of_ne h, h]

/-- A shorter piece in the place of another; its tail becomes free. -/
def shrink (A : Arena τ) (b n : ℕ) (t : τ) (hb : A.at? b = some p) (hn : 0 < n) (hle : n ≤ p.len) :
    Arena τ :=
  (A.erase b).insert b n t hn (free_erase hb le_rfl (by omega))

theorem at?_shrink_eq_some {hb : A.at? b = some p} {hn : 0 < n} {hle : n ≤ p.len} :
    (A.shrink b n t hb hn hle).at? c = some q ↔
      (c = b ∧ q = ⟨n, t⟩) ∨ (c ≠ b ∧ A.at? c = some q) := by
  rw [shrink, at?_insert_eq_some, at?_erase_eq_some]

theorem Free.shrink {hb : A.at? b = some p} {hn : 0 < n} {hle : n ≤ p.len} (h : A.Free c m)
    (hapart : c + m ≤ b ∨ b + n ≤ c) : (A.shrink b n t hb hn hle).Free c m :=
  Free.insert h.erase hapart

theorem free_shrink {hb : A.at? b = some p} {hn : 0 < n} {hle : n ≤ p.len} :
    (A.shrink b n t hb hn hle).Free (b + n) (p.len - n) := by
  intro d r hd
  rcases at?_shrink_eq_some.mp hd with ⟨rfl, rfl⟩ | ⟨hne, hd⟩
  · exact .inr le_rfl
  · have := A.separate b p d r hb hd (Ne.symm hne)
    omega

/-- Cut the front off a piece; what is left, if anything, gets the tag `rest`. -/
def carve (A : Arena τ) (b n : ℕ) (front rest : τ) (hb : A.at? b = some p) (hn : 0 < n)
    (hle : n ≤ p.len) : Arena τ :=
  if hlt : n < p.len then
    (A.shrink b n front hb hn hle).insert (b + n) (p.len - n) rest (by omega) free_shrink
  else A.shrink b n front hb hn hle

theorem at?_carve_eq_some {front rest : τ} {hb : A.at? b = some p} {hn : 0 < n} {hle : n ≤ p.len} :
    (A.carve b n front rest hb hn hle).at? c = some q ↔
      (c = b ∧ q = ⟨n, front⟩) ∨ (c = b + n ∧ n < p.len ∧ q = ⟨p.len - n, rest⟩) ∨
        (c ≠ b ∧ A.at? c = some q) := by
  unfold carve
  split
  · next hlt =>
    rw [at?_insert_eq_some, at?_shrink_eq_some]
    constructor
    · rintro (⟨rfl, rfl⟩ | h | h)
      · exact .inr (.inl ⟨rfl, hlt, rfl⟩)
      · exact .inl h
      · exact .inr (.inr h)
    · rintro (h | ⟨rfl, _, rfl⟩ | h)
      · exact .inr (.inl h)
      · exact .inl ⟨rfl, rfl⟩
      · exact .inr (.inr h)
  · next hge =>
    rw [at?_shrink_eq_some]
    constructor
    · rintro (h | h)
      · exact .inl h
      · exact .inr (.inr h)
    · rintro (h | ⟨_, hlt, _⟩ | h)
      · exact .inl h
      · exact absurd hlt hge
      · exact .inr h

/-! ### Pieces with other tags

An operation on the arena moves pieces of the tags it names, and no others. -/

theorem at?_erase_of_tag (hb : A.at? b = some p) (h : q.tag ≠ p.tag) :
    (A.erase b).at? c = some q ↔ A.at? c = some q := by
  rw [at?_erase_eq_some]
  refine ⟨And.right, fun hc => ⟨?_, hc⟩⟩
  rintro rfl
  exact h (congrArg Piece.tag (Option.some.inj (hc.symm.trans hb)))

theorem at?_insert_of_tag {hn : 0 < n} {hfree : A.Free b n} (h : q.tag ≠ t) :
    (A.insert b n t hn hfree).at? c = some q ↔ A.at? c = some q := by
  rw [at?_insert_eq_some]
  refine ⟨fun hc => hc.resolve_left ?_, .inr⟩
  rintro ⟨_, rfl⟩
  exact h rfl

theorem at?_retag_of_tag (hb : A.at? b = some p) (h : q.tag ≠ p.tag) (ht : q.tag ≠ t) :
    (A.retag b t).at? c = some q ↔ A.at? c = some q := by
  rw [at?_retag_eq_some hb]
  constructor
  · rintro (⟨_, rfl⟩ | ⟨_, hc⟩)
    · exact absurd rfl ht
    · exact hc
  · refine fun hc => .inr ⟨?_, hc⟩
    rintro rfl
    exact h (congrArg Piece.tag (Option.some.inj (hc.symm.trans hb)))

theorem at?_shrink_of_tag {hb : A.at? b = some p} {hn : 0 < n} {hle : n ≤ p.len}
    (h : q.tag ≠ p.tag) (ht : q.tag ≠ t) :
    (A.shrink b n t hb hn hle).at? c = some q ↔ A.at? c = some q := by
  rw [shrink, at?_insert_of_tag ht, at?_erase_of_tag hb h]

theorem at?_carve_of_tag {front rest : τ} {hb : A.at? b = some p} {hn : 0 < n} {hle : n ≤ p.len}
    (h : q.tag ≠ p.tag) (hfront : q.tag ≠ front) (hrest : q.tag ≠ rest) :
    (A.carve b n front rest hb hn hle).at? c = some q ↔ A.at? c = some q := by
  unfold carve
  split
  · rw [at?_insert_of_tag hrest, at?_shrink_of_tag h hfront]
  · exact at?_shrink_of_tag h hfront

end Arena
