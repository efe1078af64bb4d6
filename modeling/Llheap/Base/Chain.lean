import Mathlib.Tactic

/-!
# Intrusive lists

A singly linked list threaded through its own nodes: a head, a `next` field per node, and a null node, here `0`. `Chain next p L` says that following `next` from `p` visits exactly `L` and ends at null, so the list is finite; it then has no repeated node, because a node determines everything behind it.
-/

variable {α : Type*} [Zero α]

def Chain (next : α → α) : α → List α → Prop
  | p, [] => p = 0
  | p, b :: rest => p = b ∧ b ≠ 0 ∧ Chain next (next b) rest

namespace Chain

variable {next next' : α → α} {p b : α} {L L' : List α}

@[simp] theorem nil_iff : Chain next p [] ↔ p = 0 := Iff.rfl

@[simp] theorem cons_iff : Chain next p (b :: L) ↔ p = b ∧ b ≠ 0 ∧ Chain next (next b) L := Iff.rfl

theorem of_null (h : Chain next 0 L) : L = [] := by
  cases L with
  | nil => rfl
  | cons b rest => exact absurd h.1.symm h.2.1

theorem exists_cons (h : Chain next p L) (hp : p ≠ 0) :
    ∃ rest, L = p :: rest ∧ Chain next (next p) rest := by
  cases L with
  | nil => exact absurd h hp
  | cons b rest =>
    obtain ⟨rfl, _, hrest⟩ := h
    exact ⟨rest, rfl, hrest⟩

theorem unique (h : Chain next p L) (h' : Chain next p L') : L = L' := by
  induction L generalizing p L' with
  | nil =>
    obtain rfl := h
    exact h'.of_null.symm
  | cons b rest ih =>
    obtain ⟨rfl, hp, hrest⟩ := h
    obtain ⟨rest', rfl, hrest'⟩ := h'.exists_cons hp
    rw [ih hrest hrest']

theorem suffix {front back : List α} (h : Chain next p (front ++ b :: back)) :
    Chain next b (b :: back) := by
  induction front generalizing p with
  | nil =>
    obtain ⟨rfl, hrest⟩ := h
    exact ⟨rfl, hrest⟩
  | cons c front ih => exact ih h.2.2

theorem next_mem (h : Chain next p L) (hb : b ∈ L) : next b = 0 ∨ next b ∈ L := by
  obtain ⟨front, back, rfl⟩ := List.append_of_mem hb
  cases back with
  | nil => exact .inl (suffix h).2.2
  | cons c back =>
    have hlink : next b = c := (suffix h).2.2.1
    exact .inr (by simp [hlink])

theorem nodup (h : Chain next p L) : L.Nodup := by
  induction L generalizing p with
  | nil => exact List.nodup_nil
  | cons b rest ih =>
    refine List.nodup_cons.mpr ⟨fun hmem => ?_, ih h.2.2⟩
    -- a second `b` further down would start the same list as the first one
    obtain ⟨front, back, rfl⟩ := List.append_of_mem hmem
    have hsame : b :: back = b :: (front ++ b :: back) :=
      (suffix h.2.2).unique ⟨rfl, h.2⟩
    have hlen := congrArg List.length hsame
    simp only [List.length_cons, List.length_append] at hlen
    omega

/-- A chain reads the links of its own nodes only. -/
theorem congr (h : Chain next p L) (hnext : ∀ c ∈ L, next' c = next c) : Chain next' p L := by
  induction L generalizing p with
  | nil => exact h
  | cons c rest ih =>
    obtain ⟨rfl, hp, hrest⟩ := h
    refine ⟨rfl, hp, ?_⟩
    rw [hnext p List.mem_cons_self]
    exact ih hrest fun d hd => hnext d (List.mem_cons_of_mem p hd)

theorem push (h : Chain next p L) (hb : b ≠ 0) (hlink : next' b = p)
    (hnext : ∀ c ∈ L, next' c = next c) : Chain next' b (b :: L) :=
  ⟨rfl, hb, hlink ▸ h.congr hnext⟩

end Chain
