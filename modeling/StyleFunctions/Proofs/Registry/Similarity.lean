import Mathlib.Data.List.Infix
import Mathlib.Data.List.Nodup
import StyleFunctions.Registry.Similarity

/-!
How names are ranked. A name that begins with the query, one that contains it elsewhere and any other
one differ by more than all their characters and sizes can make up for: the characters of the query
that a name has are all of them when it contains the query.
-/

namespace StyleFunctions.Similarity

variable {query s t : String}

theorem isInfix_iff {part whole : List Char} : isInfix part whole = true ↔ part <:+: whole := by
  induction whole with
  | nil => simp [isInfix]
  | cons c cs ih => rw [isInfix, Bool.or_eq_true, ih, List.isPrefixOf_iff_prefix, List.infix_cons_iff]

section Parts

variable {part whole : List Char}

theorem overlap_of_prefix (starts : part <+: whole) : overlap part whole = 100 := by
  rw [overlap, if_pos (List.isPrefixOf_iff_prefix.mpr starts)]

theorem le_overlap_of_infix (inside : part <:+: whole) : 50 ≤ overlap part whole := by
  unfold overlap
  split
  · decide
  · rw [if_pos (isInfix_iff.mpr inside)]

theorem overlap_le_of_not_prefix (other : ¬ part <+: whole) : overlap part whole ≤ 50 := by
  rw [overlap, if_neg (mt List.isPrefixOf_iff_prefix.mp other)]
  split
  · exact Nat.le_refl _
  · split <;> decide

theorem overlap_le_of_not_infix (other : ¬ part <:+: whole) : overlap part whole ≤ 30 := by
  rw [overlap, if_neg (mt List.isPrefixOf_iff_prefix.mp (mt List.IsPrefix.isInfix other)),
    if_neg (mt isInfix_iff.mp other)]
  split <;> decide

theorem overlap_eq_zero_iff : overlap part whole = 0 ↔ ¬ part <:+: whole ∧ ¬ whole <:+: part := by
  constructor
  · intro zero
    have apart : ¬ part <:+: whole := by
      intro inside
      have := le_overlap_of_infix inside
      omega
    refine ⟨apart, fun inside => ?_⟩
    rw [overlap, if_neg (mt List.isPrefixOf_iff_prefix.mp (mt List.IsPrefix.isInfix apart)),
      if_neg (mt isInfix_iff.mp apart), if_pos (isInfix_iff.mpr inside)] at zero
    cases zero
  · rintro ⟨apart, around⟩
    rw [overlap, if_neg (mt List.isPrefixOf_iff_prefix.mp (mt List.IsPrefix.isInfix apart)),
      if_neg (mt isInfix_iff.mp apart), if_neg (mt isInfix_iff.mp around)]

theorem shared_le (part whole : List Char) : shared part whole ≤ part.eraseDups.length :=
  List.length_filter_le _ _

/-- What contains the query has all of its characters. -/
theorem shared_of_infix (inside : part <:+: whole) : shared part whole = part.eraseDups.length := by
  rw [shared, List.length_filter_eq_length_iff]
  intro c member
  exact List.contains_iff_mem.mpr (inside.subset (List.mem_eraseDups.mp member))

theorem shared_eq_zero_iff : shared part whole = 0 ↔ ∀ c ∈ part, c ∉ whole := by
  rw [shared, List.length_eq_zero_iff, List.filter_eq_nil_iff]
  simp only [List.mem_eraseDups, List.contains_iff_mem]

end Parts

/-! ### The score -/

/-- The score without what names of nearly the same size gain. -/
def base (query name : String) : Nat :=
  overlap query.toList name.toList + 2 * shared query.toList name.toList

theorem score_eq (query name : String) :
    score query name =
      if distance query.utf8ByteSize name.utf8ByteSize < 5 ∧ 0 < base query name then
        base query name + (5 - distance query.utf8ByteSize name.utf8ByteSize)
      else base query name := rfl

theorem base_le_score (query name : String) : base query name ≤ score query name := by
  rw [score_eq]
  split
  · exact Nat.le_add_right ..
  · exact Nat.le_refl _

theorem score_le (query name : String) : score query name ≤ base query name + 5 := by
  rw [score_eq]
  split
  · exact Nat.add_le_add_left (Nat.sub_le ..) _
  · exact Nat.le_add_right ..

theorem score_eq_zero_iff_base {query name : String} : score query name = 0 ↔ base query name = 0 := by
  rw [score_eq]
  split <;> omega

/-- Two names that share no character and of which neither contains the other. -/
structure Unlike (query name : String) : Prop where
  shared : ∀ c ∈ query.toList, c ∉ name.toList
  inside : ¬ query.toList <:+: name.toList
  around : ¬ name.toList <:+: query.toList

theorem score_eq_zero_iff {query name : String} : score query name = 0 ↔ Unlike query name := by
  rw [score_eq_zero_iff_base, base]
  constructor
  · intro zero
    obtain ⟨inside, around⟩ := overlap_eq_zero_iff.mp (Nat.eq_zero_of_add_eq_zero_right zero)
    exact ⟨shared_eq_zero_iff.mp (by omega), inside, around⟩
  · intro unlike
    rw [overlap_eq_zero_iff.mpr ⟨unlike.inside, unlike.around⟩, shared_eq_zero_iff.mpr unlike.shared]

theorem score_lt_of_prefix (starts : query.toList <+: s.toList) (other : ¬ query.toList <+: t.toList) :
    score query t < score query s := by
  have least := base_le_score query s
  have most := score_le query t
  have all := shared_of_infix starts.isInfix
  have some := shared_le query.toList t.toList
  have first := overlap_of_prefix starts
  have second := overlap_le_of_not_prefix other
  unfold base at least most
  omega

theorem score_lt_of_infix (inside : query.toList <:+: s.toList)
    (other : ¬ query.toList <:+: t.toList) : score query t < score query s := by
  have least := base_le_score query s
  have most := score_le query t
  have all := shared_of_infix inside
  have some := shared_le query.toList t.toList
  have first := le_overlap_of_infix inside
  have second := overlap_le_of_not_infix other
  unfold base at least most
  omega

/-! ### The ranking -/

/-- The order of suggestions: the higher score first, and of equal scores the smaller name. -/
def Before (query s t : String) : Prop :=
  score query t < score query s ∨ score query s = score query t ∧ s < t

theorem before_asymm (before : Before query s t) : ¬ Before query t s := by
  rintro (less | ⟨_, less⟩) <;> rcases before with greater | ⟨same, greater⟩
  · omega
  · omega
  · omega
  · exact String.lt_irrefl _ (String.lt_trans less greater)

theorem precedes_iff : precedes query s t = true ↔ Before query s t ∨ s = t := by
  simp only [precedes, Bool.or_eq_true, decide_eq_true_eq, Bool.and_eq_true, beq_iff_eq]
  constructor
  · rintro (less | ⟨same, least⟩)
    · exact .inl (.inl less)
    · by_cases equal : s = t
      · exact .inr equal
      · have less : s < t := String.not_le.mp fun greatest =>
          equal (String.le_antisymm least greatest)
        exact .inl (.inr ⟨same, less⟩)
  · rintro ((less | ⟨same, less⟩) | rfl)
    · exact .inl less
    · exact .inr ⟨same, String.not_lt.mp (String.lt_asymm less)⟩
    · exact .inr ⟨rfl, String.le_refl s⟩

theorem precedes_trans {u : String} (first : precedes query s t = true)
    (second : precedes query t u = true) : precedes query s u = true := by
  rw [precedes_iff] at *
  rcases first with first | rfl
  · rcases second with second | rfl
    · left
      rcases first with first | ⟨same, less⟩ <;> rcases second with second | ⟨same', less'⟩
      · exact .inl (Nat.lt_trans second first)
      · exact .inl (same' ▸ first)
      · exact .inl (same ▸ second)
      · exact .inr ⟨same.trans same', String.lt_trans less less'⟩
    · exact .inl first
  · exact second

theorem precedes_total (query s t : String) : (precedes query s t || precedes query t s) = true := by
  simp only [precedes, Bool.or_eq_true, decide_eq_true_eq, Bool.and_eq_true, beq_iff_eq]
  rcases Nat.lt_trichotomy (score query s) (score query t) with less | same | greater
  · exact .inr (.inl less)
  · rcases String.le_total s t with least | greatest
    · exact .inl (.inr ⟨same, least⟩)
    · exact .inr (.inr ⟨same.symm, greatest⟩)
  · exact .inl (.inl greater)

/-- The names with a score, each once, in the order of suggestions. -/
structure Ranked (query : String) (names order : List String) : Prop where
  mem_iff : ∀ name, name ∈ order ↔ name ∈ names ∧ 0 < score query name
  pairwise : order.Pairwise (Before query)

variable {names order order' : List String}

theorem ranked_ranking (distinct : names.Nodup) : Ranked query names (ranking query names) where
  mem_iff name := by simp [ranking]
  pairwise := by
    have sorted : (ranking query names).Pairwise fun s t => precedes query s t = true := by
      apply List.pairwise_mergeSort
      · intro s t u first second
        exact precedes_trans first second
      · exact precedes_total query
    have once : (ranking query names).Nodup :=
      (List.mergeSort_perm _ _).nodup_iff.mpr (distinct.filter _)
    exact (sorted.and once).imp fun both => (precedes_iff.mp both.1).resolve_right both.2

namespace Ranked

theorem nodup (ranked : Ranked query names order) : order.Nodup := by
  apply ranked.pairwise.imp
  rintro s _ before rfl
  exact before_asymm before before

/-- Which names there are is all that a ranking depends on. -/
theorem eq_of_mem_iff {names' : List String} (first : Ranked query names order)
    (second : Ranked query names' order') (same : ∀ name, name ∈ names ↔ name ∈ names') :
    order = order' := by
  have members : ∀ name, name ∈ order ↔ name ∈ order' := by
    intro name
    rw [first.mem_iff, second.mem_iff, same]
  have perm : order.Perm order' := (List.perm_ext_iff_of_nodup first.nodup second.nodup).mpr members
  apply perm.eq_of_pairwise _ first.pairwise second.pairwise
  intro s t _ _ before after
  exact absurd after (before_asymm before)

theorem sublist_of_before (ranked : Ranked query names order) (left : s ∈ order) (right : t ∈ order)
    (before : Before query s t) : [s, t].Sublist order := by
  have pairwise := ranked.pairwise
  obtain ⟨front, back, rfl⟩ := List.append_of_mem left
  have behind : t ∈ back := by
    rcases List.mem_append.mp right with earlier | later
    · have after := (List.pairwise_append.mp pairwise).2.2 t earlier s (List.mem_cons_self ..)
      exact absurd after (before_asymm before)
    · rcases List.mem_cons.mp later with rfl | inside
      · exact absurd before (before_asymm before)
      · exact inside
  exact .trans (.cons_cons s (List.singleton_sublist.mpr behind)) (List.sublist_append_right ..)

/-- A name of higher score than one of the ranking stands before it. -/
theorem sublist_of_score_lt (ranked : Ranked query names order) (left : s ∈ names) (right : t ∈ order)
    (less : score query t < score query s) : [s, t].Sublist order := by
  have scored : 0 < score query s := Nat.zero_lt_of_lt less
  exact ranked.sublist_of_before ((ranked.mem_iff s).mpr ⟨left, scored⟩) right (.inl less)

/-- With room left a name is left out exactly when it has nothing in common with the query. -/
theorem not_mem_take_iff (ranked : Ranked query names order) {count : Nat} (member : s ∈ names)
    (room : (order.take count).length < count) : s ∉ order.take count ↔ Unlike query s := by
  have all : order.take count = order := by
    apply List.take_of_length_le
    rw [List.length_take] at room
    omega
  rw [all, ranked.mem_iff, ← score_eq_zero_iff]
  simp [member]

end Ranked

end StyleFunctions.Similarity
