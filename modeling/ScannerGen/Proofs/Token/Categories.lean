import Mathlib.Data.List.Induction
import Mathlib.Data.List.Nodup
import ScannerGen.Token

/-!
# Tokens by category

Putting identifiers and ids into the lists of their categories, token by token, keeps every token and its
place among those of its category.

* `CategoryIds.Groups` — lists by category are those of some tokens.
* `CategoryIds.Groups.add` — putting one more token into its list.
* `TokenTable.groups_categoryIds` — the lists of a table.
-/

namespace ScannerGen

/-- What hooks are told of a token. -/
def Token.entry (t : Token) : String × Nat := (t.ident, t.id)

namespace CategoryIds

/-- The lists belong to the categories of the tokens, in the order of first use, and each has the entries of
the tokens of its category in their order. -/
structure Groups (tokens : List Token) (ids : CategoryIds) : Prop where
  distinct : (ids.map Prod.fst).Nodup
  used : ∀ c, c ∈ ids.map Prod.fst ↔ c ∈ tokens.map Token.category
  firstUse : (ids.map Prod.fst).Pairwise fun c d =>
    (tokens.map Token.category).idxOf c < (tokens.map Token.category).idxOf d
  nonempty : ∀ group ∈ ids, group.2 ≠ []
  entries : ∀ group ∈ ids, group.2 = (tokens.filter fun t => t.category = group.1).map Token.entry

/-! ## Adding a token -/

/-- A category that is new is put at the end. -/
theorem add_of_fresh {ids : CategoryIds} {t : Token} (fresh : t.category ∉ ids.map Prod.fst) :
    ids.add t = ids ++ [(t.category, [t.entry])] := by
  induction ids with
  | nil => rfl
  | cons group ids ih =>
    simp only [List.map_cons, List.mem_cons, not_or] at fresh
    simp only [add, if_neg (Ne.symm fresh.1), ih fresh.2, List.cons_append]

/-- A category that is known gets one more entry, and all else stays. -/
theorem add_of_known {ids : CategoryIds} {t : Token} (distinct : (ids.map Prod.fst).Nodup)
    (known : t.category ∈ ids.map Prod.fst) :
    ids.add t = ids.map fun group =>
      if group.1 = t.category then (group.1, group.2 ++ [t.entry]) else group := by
  induction ids with
  | nil => simp at known
  | cons group ids ih =>
    obtain ⟨others, distinct⟩ := List.nodup_cons.1 distinct
    by_cases here : group.1 = t.category
    · -- The other groups have other categories.
      have same : ∀ other ∈ ids, (if other.1 = t.category then (other.1, other.2 ++ [t.entry]) else other) = other := by
        intro other member
        rw [if_neg]
        intro again
        apply others
        rw [here, ← again]
        exact List.mem_map_of_mem member
      simp only [add, if_pos here, List.map_cons, List.map_congr_left same, List.map_id']
      rfl
    · have later : t.category ∈ ids.map Prod.fst := by
        rcases List.mem_cons.1 known with head | later
        · exact absurd head.symm here
        · exact later
      simp only [add, if_neg here, List.map_cons, ih distinct later]

variable {tokens : List Token} {ids : CategoryIds}

theorem groups_nil : Groups [] [] where
  distinct := List.nodup_nil
  used := by simp
  firstUse := List.Pairwise.nil
  nonempty := by simp
  entries := by simp

/-- A category that is listed is found where it was found before. -/
theorem Groups.idxOf_append (groups : Groups tokens ids) {c : Category} (listed : c ∈ ids.map Prod.fst)
    (more : List Category) :
    (tokens.map Token.category ++ more).idxOf c = (tokens.map Token.category).idxOf c :=
  List.idxOf_append_of_mem ((groups.used c).1 listed)

theorem Groups.add_fresh (groups : Groups tokens ids) {t : Token} (fresh : t.category ∉ ids.map Prod.fst) :
    Groups (tokens ++ [t]) (ids.add t) := by
  have unused : t.category ∉ tokens.map Token.category := mt (groups.used t.category).2 fresh
  rw [add_of_fresh fresh]
  constructor
  case distinct =>
    simp only [List.map_append, List.map_singleton, List.nodup_append, List.nodup_singleton, true_and,
      List.mem_singleton]
    refine ⟨groups.distinct, ?_⟩
    rintro c listed _ rfl same
    exact fresh (same ▸ listed)
  case used =>
    intro c
    simp [groups.used c]
  case firstUse =>
    simp only [List.map_append, List.map_singleton]
    refine List.pairwise_append.2 ⟨?_, List.pairwise_singleton _ _, ?_⟩
    · apply groups.firstUse.imp_of_mem
      intro c d first second less
      rwa [groups.idxOf_append first, groups.idxOf_append second]
    · -- The new category is found at the end.
      intro c listed d new
      obtain rfl := List.mem_singleton.1 new
      rw [groups.idxOf_append listed, List.idxOf_append_of_notMem unused, List.idxOf_cons_self, Nat.add_zero]
      exact List.idxOf_lt_length_of_mem ((groups.used c).1 listed)
  case nonempty =>
    intro group member
    rcases List.mem_append.1 member with old | new
    · exact groups.nonempty group old
    · obtain rfl := List.mem_singleton.1 new
      exact List.cons_ne_nil _ _
  case entries =>
    intro group member
    rcases List.mem_append.1 member with old | new
    · have other : t.category ≠ group.1 := fun same => fresh (same ▸ List.mem_map_of_mem old)
      simp [other, groups.entries group old]
    · obtain rfl := List.mem_singleton.1 new
      have none : tokens.filter (fun u => u.category = t.category) = [] := by
        rw [List.filter_eq_nil_iff]
        intro u member same
        exact unused (of_decide_eq_true same ▸ List.mem_map_of_mem member)
      simp [none]

theorem Groups.add_known (groups : Groups tokens ids) {t : Token} (known : t.category ∈ ids.map Prod.fst) :
    Groups (tokens ++ [t]) (ids.add t) := by
  have categories : (ids.add t).map Prod.fst = ids.map Prod.fst := by
    rw [add_of_known groups.distinct known, List.map_map]
    apply List.map_congr_left
    intro group _
    simp only [Function.comp_apply]
    split <;> rfl
  constructor
  case distinct =>
    rw [categories]
    exact groups.distinct
  case used =>
    intro c
    have old := (groups.used t.category).1 known
    rw [categories, groups.used c]
    simp only [List.map_append, List.map_singleton, List.mem_append, List.mem_singleton]
    constructor
    · exact .inl
    · rintro (listed | rfl)
      · exact listed
      · exact old
  case firstUse =>
    rw [categories, List.map_append]
    apply groups.firstUse.imp_of_mem
    intro c d first second less
    rwa [groups.idxOf_append first, groups.idxOf_append second]
  case nonempty =>
    rw [add_of_known groups.distinct known]
    intro group member
    obtain ⟨old, listed, rfl⟩ := List.mem_map.1 member
    split
    · simp
    · exact groups.nonempty old listed
  case entries =>
    rw [add_of_known groups.distinct known]
    intro group member
    obtain ⟨old, listed, rfl⟩ := List.mem_map.1 member
    by_cases here : old.1 = t.category
    · simp [here, groups.entries old listed]
    · simp [here, Ne.symm here, groups.entries old listed]

/-- One more token is put into the list of its category, behind those that are there. -/
theorem Groups.add (groups : Groups tokens ids) (t : Token) : Groups (tokens ++ [t]) (ids.add t) := by
  by_cases known : t.category ∈ ids.map Prod.fst
  · exact groups.add_known known
  · exact groups.add_fresh known

end CategoryIds

/-- The lists of a table are those of its tokens. -/
theorem TokenTable.groups_categoryIds (table : TokenTable) :
    CategoryIds.Groups table.tokens table.categoryIds := by
  rw [categoryIds]
  -- Tokens are added from the left, so the last one is added to the lists of those before it.
  induction table.tokens using List.reverseRecOn with
  | nil => exact CategoryIds.groups_nil
  | append_singleton tokens t ih =>
    rw [List.foldl_append]
    exact ih.add t

end ScannerGen
