import Mathlib.Order.Lattice

namespace Carrick
namespace Foundation

/-!
# Ordered maps as lists of entries

An ordered map is the list of its entries in increasing order of their keys.
Every operation is a filter around the key it is about, so its entries are
known without any fact about the order; the order is needed to say which entry
a bounded search finds.
-/

universe u v

variable {K : Type u} {V : Type v} [LinearOrder K]

namespace OrderedMap

def insert (key : K) (value : V) (entries : List (K × V)) : List (K × V) :=
  entries.filter (fun entry => entry.1 < key) ++
    (key, value) :: entries.filter (fun entry => key < entry.1)

def remove (key : K) (entries : List (K × V)) : List (K × V) :=
  entries.filter (fun entry => entry.1 ≠ key)

def lookup (key : K) (entries : List (K × V)) : Option V :=
  (entries.find? (fun entry => entry.1 = key)).map Prod.snd

/-- The last entry below a bound. -/
def lastBelow (bound : K) (entries : List (K × V)) : Option (K × V) :=
  (entries.filter (fun entry => entry.1 < bound)).getLast?

/-- The last entry up to a bound. -/
def lastUpTo (bound : K) (entries : List (K × V)) : Option (K × V) :=
  (entries.filter (fun entry => entry.1 <= bound)).getLast?

/-- The first entry from a bound on. -/
def firstFrom (bound : K) (entries : List (K × V)) : Option (K × V) :=
  (entries.filter (fun entry => bound <= entry.1)).head?

/-- The entries from one bound up to another. -/
def between (low high : K) (entries : List (K × V)) : List (K × V) :=
  entries.filter (fun entry => low <= entry.1 && entry.1 < high)

/-- Keys increase along the list. -/
def Sorted (entries : List (K × V)) : Prop :=
  entries.Pairwise (fun first second => first.1 < second.1)

variable {entries : List (K × V)}

theorem mem_insert {key : K} {value : V} {entry : K × V} :
    entry ∈ insert key value entries <->
      entry = (key, value) ∨ (entry ∈ entries ∧ entry.1 ≠ key) := by
  unfold insert
  rw [List.mem_append, List.mem_cons, List.mem_filter, List.mem_filter]
  simp only [decide_eq_true_eq]
  constructor
  · rintro (⟨listed, below⟩ | same | ⟨listed, above⟩)
    · exact .inr ⟨listed, ne_of_lt below⟩
    · exact .inl same
    · exact .inr ⟨listed, ne_of_gt above⟩
  rintro (same | ⟨listed, different⟩)
  · exact .inr (.inl same)
  · rcases lt_or_gt_of_ne different with below | above
    · exact .inl ⟨listed, below⟩
    · exact .inr (.inr ⟨listed, above⟩)

theorem mem_remove {key : K} {entry : K × V} :
    entry ∈ remove key entries <-> entry ∈ entries ∧ entry.1 ≠ key := by
  unfold remove
  rw [List.mem_filter]
  simp

theorem mem_between {low high : K} {entry : K × V} :
    entry ∈ between low high entries <-> entry ∈ entries ∧ low <= entry.1 ∧ entry.1 < high := by
  unfold between
  rw [List.mem_filter]
  simp

namespace Sorted

section Sorted

variable (sorted : Sorted entries)

include sorted

theorem filter (kept : K × V -> Bool) : Sorted (entries.filter kept) :=
  List.Pairwise.filter kept sorted

theorem insert (key : K) (value : V) :
    Sorted (OrderedMap.insert key value entries) := by
  refine List.pairwise_append.mpr ⟨sorted.filter _, List.pairwise_cons.mpr ⟨?_, sorted.filter _⟩, ?_⟩
  · intro entry listed
    have above := (List.mem_filter.mp listed).2
    simpa using above
  intro first firstListed second secondListed
  have below : first.1 < key := by simpa using (List.mem_filter.mp firstListed).2
  rcases List.mem_cons.mp secondListed with same | later
  · rw [same]
    exact below
  · have above : key < second.1 := by simpa using (List.mem_filter.mp later).2
    exact lt_trans below above

theorem remove (key : K) : Sorted (OrderedMap.remove key entries) :=
  sorted.filter _

theorem unique {first second : K × V} (firstListed : first ∈ entries)
    (secondListed : second ∈ entries) (same : first.1 = second.1) : first = second := by
  rcases List.mem_iff_getElem.mp firstListed with ⟨i, iBound, atI⟩
  rcases List.mem_iff_getElem.mp secondListed with ⟨j, jBound, atJ⟩
  have order := List.pairwise_iff_getElem.mp sorted
  rcases Nat.lt_trichotomy i j with before | here | after
  · have less := order i j iBound jBound before
    rw [atI, atJ, same] at less
    exact absurd less (lt_irrefl _)
  · subst here
    exact atI.symm.trans atJ
  · have less := order j i jBound iBound after
    rw [atI, atJ, same] at less
    exact absurd less (lt_irrefl _)

theorem lookup_eq_some_iff {key : K} {value : V} :
    lookup key entries = some value <-> (key, value) ∈ entries := by
  unfold lookup
  rw [Option.map_eq_some_iff]
  constructor
  · rintro ⟨entry, found, same⟩
    have atKey : entry.1 = key := by simpa using List.find?_some found
    rw [<- atKey, <- same]
    exact List.mem_of_find?_eq_some found
  intro listed
  cases found : entries.find? (fun entry => entry.1 = key) with
  | none =>
    rw [List.find?_eq_none] at found
    exact absurd (by simp) (found (key, value) listed)
  | some entry =>
    have atKey : entry.1 = key := by simpa using List.find?_some found
    have same := sorted.unique (List.mem_of_find?_eq_some found) listed atKey
    exact ⟨entry, rfl, by rw [same]⟩

theorem le_getLast {last : K × V} (ends : entries.getLast? = some last) :
    last ∈ entries ∧ ∀ entry ∈ entries, entry.1 <= last.1 := by
  rcases List.getLast?_eq_some_iff.mp ends with ⟨front, shape⟩
  subst shape
  refine ⟨by simp, ?_⟩
  intro entry listed
  rcases List.mem_append.mp listed with before | same
  · exact le_of_lt ((List.pairwise_append.mp sorted).2.2 entry before last (by simp))
  · rw [List.mem_singleton.mp same]

theorem head_le {first : K × V} (starts : entries.head? = some first) :
    first ∈ entries ∧ ∀ entry ∈ entries, first.1 <= entry.1 := by
  cases entries with
  | nil => cases starts
  | cons head rest =>
    simp only [List.head?_cons, Option.some.injEq] at starts
    subst starts
    refine ⟨by simp, ?_⟩
    intro entry listed
    rcases List.mem_cons.mp listed with same | later
    · rw [same]
    · exact le_of_lt ((List.pairwise_cons.mp sorted).1 entry later)

theorem lastBelow_some {bound : K} {last : K × V} (found : lastBelow bound entries = some last) :
    last ∈ entries ∧ last.1 < bound ∧
      ∀ entry ∈ entries, entry.1 < bound -> entry.1 <= last.1 := by
  have greatest := (sorted.filter _).le_getLast found
  have listed := List.mem_filter.mp greatest.1
  refine ⟨listed.1, by simpa using listed.2, ?_⟩
  intro entry member below
  exact greatest.2 entry (List.mem_filter.mpr ⟨member, by simpa using below⟩)

theorem lastUpTo_some {bound : K} {last : K × V} (found : lastUpTo bound entries = some last) :
    last ∈ entries ∧ last.1 <= bound ∧
      ∀ entry ∈ entries, entry.1 <= bound -> entry.1 <= last.1 := by
  have greatest := (sorted.filter _).le_getLast found
  have listed := List.mem_filter.mp greatest.1
  refine ⟨listed.1, by simpa using listed.2, ?_⟩
  intro entry member below
  exact greatest.2 entry (List.mem_filter.mpr ⟨member, by simpa using below⟩)

theorem firstFrom_some {bound : K} {first : K × V} (found : firstFrom bound entries = some first) :
    first ∈ entries ∧ bound <= first.1 ∧
      ∀ entry ∈ entries, bound <= entry.1 -> first.1 <= entry.1 := by
  have least := (sorted.filter _).head_le found
  have listed := List.mem_filter.mp least.1
  refine ⟨listed.1, by simpa using listed.2, ?_⟩
  intro entry member above
  exact least.2 entry (List.mem_filter.mpr ⟨member, by simpa using above⟩)

end Sorted

end Sorted

theorem lastBelow_none {bound : K}
    (absent : lastBelow bound entries = none) : ∀ entry ∈ entries, ¬ entry.1 < bound := by
  unfold lastBelow at absent
  rw [List.getLast?_eq_none_iff, List.filter_eq_nil_iff] at absent
  intro entry listed
  simpa using absent entry listed

theorem lastUpTo_none {bound : K}
    (absent : lastUpTo bound entries = none) : ∀ entry ∈ entries, ¬ entry.1 <= bound := by
  unfold lastUpTo at absent
  rw [List.getLast?_eq_none_iff, List.filter_eq_nil_iff] at absent
  intro entry listed
  simpa using absent entry listed

theorem firstFrom_none {bound : K}
    (absent : firstFrom bound entries = none) : ∀ entry ∈ entries, ¬ bound <= entry.1 := by
  unfold firstFrom at absent
  rw [List.head?_eq_none_iff, List.filter_eq_nil_iff] at absent
  intro entry listed
  simpa using absent entry listed

end OrderedMap

end Foundation
end Carrick
