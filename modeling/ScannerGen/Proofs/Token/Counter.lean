import ScannerGen.Proofs.Token.Legal

/-!
# Counting out ids

The ids that are not declared are the smallest positive numbers that are left.  They may as well be
counted out: a counter of 32 bits starts at one and goes on while its value is taken, by a declared id or
by one that was handed out before.

* `nextFree?`, `countIds?` — the counter, and the ids that it comes to; they fail where it overflows.
* `SmallestFree` — an ascending list of the smallest numbers that are left.
* `countIds?_eq` — the counter comes to the ids that are assigned.
* `ids_smallestFree` — the ids of settled tokens, and that the counter does not overflow.
-/

namespace ScannerGen

/-! ## The counter -/

/-- The first number that is not taken, from a counter of 32 bits on. -/
def nextFree? (taken : List Nat) (counter : Nat) : Option Nat :=
  if counter ∈ taken then
    if counter + 1 < 2 ^ 32 then nextFree? taken (counter + 1) else none
  else some counter
termination_by 2 ^ 32 - counter

/-- The ids of declarations: those that are declared, and others that the counter comes to, each of
which is taken from then on. -/
def countIds? (taken : List Nat) (counter : Nat) : List Declaration → Option (List Nat)
  | [] => some []
  | d :: ds =>
    match d.id with
    | some id => (countIds? taken counter ds).map (id :: ·)
    | none =>
      match nextFree? taken counter with
      | none => none
      | some id => (countIds? (id :: taken) id ds).map (id :: ·)

/-- The ids that were not declared, in the order of the declarations. -/
def undeclaredIds (ds : List Declaration) (ids : List Nat) : List Nat :=
  ((ds.zip ids).filter fun pair => pair.1.id.isNone).map Prod.snd

/-- An ascending list of the smallest positive numbers that are not declared. -/
structure SmallestFree (declared ids : List Nat) : Prop where
  ascending : ids.Pairwise (· < ·)
  unused : ∀ id ∈ ids, 0 < id ∧ id ∉ declared
  gapless : ∀ id ∈ ids, ∀ m, 0 < m → m < id → m ∈ declared ∨ m ∈ ids

/-! ## Free ids -/

/-- A beginning of an ascending list has every member that is below one of its own. -/
theorem mem_take_of_lt {ids : List Nat} (ascending : ids.Pairwise (· < ·)) {count id m : Nat}
    (member : id ∈ ids.take count) (among : m ∈ ids) (below : m < id) : m ∈ ids.take count := by
  rw [← List.take_append_drop count ids] at ascending among
  rcases List.mem_append.1 among with front | back
  · exact front
  · exact absurd ((List.pairwise_append.1 ascending).2.2 id member m back) (Nat.lt_asymm below)

theorem smallestFree_freeIds (declared : List Nat) (total count : Nat) :
    SmallestFree declared ((freeIds declared total).take count) := by
  have unused : ∀ id ∈ (freeIds declared total).take count, 0 < id ∧ id ∉ declared :=
    fun id member => mem_freeIds (List.mem_of_mem_take member)
  have ascending : ((List.range' 1 (total + declared.length)).filter fun id =>
      !declared.contains id).Pairwise (· < ·) := (List.pairwise_lt_range' ..).filter _
  rw [freeIds, List.take_take] at unused ⊢
  refine ⟨ascending.sublist (List.take_sublist _ _), unused, fun id member m positive below => ?_⟩
  by_cases taken : m ∈ declared
  · exact .inl taken
  · -- A smaller number that is not declared is among those that the list is taken from.
    have bounds := List.mem_range'_1.1 (List.mem_filter.1 (List.mem_of_mem_take member)).1
    have inRange : m ∈ List.range' 1 (total + declared.length) := List.mem_range'_1.2 (by omega)
    have among : m ∈ (List.range' 1 (total + declared.length)).filter fun id =>
        !declared.contains id := List.mem_filter.2 ⟨inRange, by simpa using taken⟩
    exact .inr (mem_take_of_lt ascending member among below)

/-- The numbers of a list of smallest ones that are above the first ones of it. -/
theorem SmallestFree.lt_of_append {declared handed ids : List Nat} {id : Nat}
    (smallest : SmallestFree declared (handed ++ id :: ids)) :
    (∀ m ∈ handed, m < id) ∧ ∀ m ∈ ids, id < m := by
  obtain ⟨_, later, across⟩ := List.pairwise_append.1 smallest.ascending
  exact ⟨fun m member => across m member id List.mem_cons_self, (List.pairwise_cons.1 later).1⟩

/-- Every number below the next smallest one is declared or was handed out before. -/
theorem SmallestFree.passed {declared handed ids : List Nat} {id m : Nat}
    (smallest : SmallestFree declared (handed ++ id :: ids)) (positive : 0 < m) (below : m < id) :
    m ∈ declared ∨ m ∈ handed := by
  have member : id ∈ handed ++ id :: ids := List.mem_append_right _ List.mem_cons_self
  refine (smallest.gapless id member m positive below).imp_right fun among => ?_
  rcases List.mem_append.1 among with front | back
  · exact front
  · rcases List.mem_cons.1 back with rfl | later
    · exact absurd below (Nat.lt_irrefl m)
    · exact absurd (smallest.lt_of_append.2 m later) (Nat.lt_asymm below)

/-! ## Counting -/

theorem nextFree?_eq_some {taken : List Nat} {counter id : Nat} (ahead : counter ≤ id)
    (passed : ∀ m, counter ≤ m → m < id → m ∈ taken) (free : id ∉ taken) (word : id < 2 ^ 32) :
    nextFree? taken counter = some id := by
  induction distance : id - counter generalizing counter with
  | zero =>
    obtain rfl : counter = id := by omega
    rw [nextFree?, if_neg free]
  | succ distance ih =>
    have occupied : counter ∈ taken := passed counter (Nat.le_refl _) (by omega)
    have inside : counter + 1 < 2 ^ 32 := by omega
    rw [nextFree?, if_pos occupied, if_pos inside]
    exact ih (by omega) (fun m above => passed m (by omega)) (by omega)

/-- The counter comes to the ids that are assigned, if those that are still to be handed out are the
smallest ones that are left. -/
theorem countIds?_eq {declared handed ids taken : List Nat} {counter : Nat} {ds : List Declaration}
    (smallest : SmallestFree declared (handed ++ ids)) (words : ∀ id ∈ ids, id < 2 ^ 32)
    (same : ∀ m, m ∈ taken ↔ m ∈ declared ∨ m ∈ handed) (positive : 0 < counter)
    (ahead : ∀ id ∈ ids, counter ≤ id) (enough : ds.countP (·.id.isNone) ≤ ids.length) :
    countIds? taken counter ds = some (assignIds ds ids) := by
  induction ds generalizing handed ids taken counter with
  | nil => rfl
  | cons d ds ih =>
    cases declaredId : d.id with
    | some id =>
      rw [List.countP_cons_of_neg (by simp [declaredId])] at enough
      have rest := ih smallest words same positive ahead enough
      simp only [countIds?, assignIds, declaredId, rest, Option.map_some]
    | none =>
      rw [List.countP_cons_of_pos (by simp [declaredId])] at enough
      cases ids with
      | nil => simp at enough
      | cons id ids =>
        obtain ⟨later, above⟩ := smallest.lt_of_append
        have free : id ∉ taken := by
          rw [same]
          rintro (among | before)
          · exact (smallest.unused id (by simp)).2 among
          · exact Nat.lt_irrefl id (later id before)
        have found : nextFree? taken counter = some id :=
          nextFree?_eq_some (ahead id List.mem_cons_self)
            (fun m from_counter below => (same m).2 (smallest.passed (by omega) below)) free
            (words id List.mem_cons_self)
        -- The id that was found is taken, and the counter goes on from it.
        rw [← List.singleton_append, ← List.append_assoc] at smallest
        have sameLater : ∀ m, m ∈ id :: taken ↔ m ∈ declared ∨ m ∈ handed ++ [id] := by
          intro m
          rw [List.mem_cons, same, List.mem_append, List.mem_singleton]
          tauto
        have rest := ih smallest (fun m member => words m (List.mem_cons_of_mem _ member)) sameLater
          (by have := ahead id List.mem_cons_self; omega) (fun m member => Nat.le_of_lt (above m member))
          (Nat.le_of_succ_le_succ enough)
        simp only [countIds?, assignIds, declaredId, found, rest, Option.map_some]

/-! ## Assigned ids -/

/-- Only as many free ids are used as there are declarations without one. -/
theorem assignIds_take (ds : List Declaration) (free : List Nat)
    (enough : ds.countP (·.id.isNone) ≤ free.length) :
    assignIds ds (free.take (ds.countP (·.id.isNone))) = assignIds ds free := by
  induction ds generalizing free with
  | nil => rfl
  | cons d ds ih =>
    cases declared : d.id with
    | some id =>
      rw [List.countP_cons_of_neg (by simp [declared])] at enough ⊢
      simp only [assignIds, declared, ih free enough]
    | none =>
      rw [List.countP_cons_of_pos (by simp [declared])] at enough ⊢
      cases free with
      | nil => simp at enough
      | cons id free =>
        simp only [List.take_succ_cons, assignIds, declared, ih free (Nat.le_of_succ_le_succ enough)]

/-- The free ids that are used are those that were not declared. -/
theorem undeclaredIds_assignIds (ds : List Declaration) (free : List Nat)
    (enough : ds.countP (·.id.isNone) ≤ free.length) :
    undeclaredIds ds (assignIds ds free) = free.take (ds.countP (·.id.isNone)) := by
  induction ds generalizing free with
  | nil => rfl
  | cons d ds ih =>
    cases declared : d.id with
    | some id =>
      rw [List.countP_cons_of_neg (by simp [declared])] at enough ⊢
      rw [← ih free enough]
      simp [assignIds, declared, undeclaredIds]
    | none =>
      rw [List.countP_cons_of_pos (by simp [declared])] at enough ⊢
      cases free with
      | nil => simp at enough
      | cons id free =>
        rw [List.take_succ_cons, ← ih free (Nat.le_of_succ_le_succ enough)]
        simp [assignIds, declared, undeclaredIds]

section Settled

variable {ds : List Declaration}

theorem enough_freeIds (ds : List Declaration) :
    ds.countP (·.id.isNone) ≤ (freeIds (ds.filterMap Declaration.id) ds.length).length := by
  rw [length_freeIds]
  exact List.countP_le_length

theorem undeclaredIds_settledIds (ds : List Declaration) :
    undeclaredIds ds (settledIds ds) = handedOut ds :=
  undeclaredIds_assignIds ds _ (enough_freeIds ds)

/-- A counter of 32 bits is enough for all but the longest lists. -/
theorem countIds?_settledIds (few : ds.length < 2 ^ 32) :
    countIds? (ds.filterMap Declaration.id) 1 ds = some (settledIds ds) := by
  have smallest : SmallestFree (ds.filterMap Declaration.id) ([] ++ handedOut ds) :=
    smallestFree_freeIds _ _ _
  have words : ∀ id ∈ handedOut ds, id < 2 ^ 32 := fun id member =>
    Nat.lt_of_le_of_lt (le_length_of_mem_handedOut member) few
  have enough : ds.countP (·.id.isNone) ≤ (handedOut ds).length := by
    rw [handedOut, List.length_take, Nat.min_eq_left (enough_freeIds ds)]
  rw [settledIds, ← assignIds_take ds _ (enough_freeIds ds)]
  exact countIds?_eq smallest words (by simp) Nat.one_pos
    (fun id member => (smallest.unused id member).1) enough

/-- The ids of settled tokens are positive and all different, and declared ones are kept.  The others are,
in the order of the declarations, the smallest positive numbers that are not declared, none above the
number of declarations; and a counter of 32 bits comes to them. -/
theorem ids_smallestFree {tokens : TokenTable} (settled : settle ds = .ok tokens)
    (few : ds.length < 2 ^ 32 - 1) :
    (∀ t ∈ tokens.tokens, 0 < t.id) ∧ (tokens.tokens.map Token.id).Nodup ∧
    (∀ (i id : Nat) (d : Declaration), ds[i]? = some d → d.id = some id →
      ∃ t, tokens.get? i = some t ∧ t.id = id) ∧
    SmallestFree (ds.filterMap Declaration.id) (undeclaredIds ds (tokens.tokens.map Token.id)) ∧
    (∀ id ∈ undeclaredIds ds (tokens.tokens.map Token.id), id ≤ ds.length) ∧
    countIds? (ds.filterMap Declaration.id) 1 ds = some (tokens.tokens.map Token.id) := by
  obtain ⟨positive, distinct⟩ := List.nodup_cons.1 (TokenTable.nodup_ids settled)
  refine ⟨fun t member => ?_, distinct, fun i id d found declared => ?_, ?_⟩
  · exact Nat.pos_of_ne_zero fun zero => positive (List.mem_map.2 ⟨t, member, zero⟩)
  · obtain ⟨t, listed, carries⟩ := carries_of_settled settled found
    exact ⟨t, listed, carries.id_eq id declared⟩
  · rw [TokenTable.map_id_of_settled settled, undeclaredIds_settledIds]
    exact ⟨smallestFree_freeIds _ _ _, fun id member => le_length_of_mem_handedOut member,
      countIds?_settledIds (by omega)⟩

end Settled

/-- A keyword with an identifier, and an id if there is one. -/
def numbered (ident : String) (id : Option Nat) : Declaration :=
  { Declaration.ofCategory .keyword (some "a") .api with ident := some ident, id }

/-- Ids are handed out around a small declared id, whatever the greatest word is used for. -/
theorem ids_smallestFree_around :
    ∃ tokens, settle [numbered "IF" none, numbered "DO" (some 2), numbered "OF" (some 4294967295),
        numbered "TO" none] = .ok tokens ∧
      tokens.tokens.map Token.id = [1, 2, 4294967295, 3] ∧
      SmallestFree [2, 4294967295] [1, 3] ∧
      countIds? [2, 4294967295] 1 [numbered "IF" none, numbered "DO" (some 2),
        numbered "OF" (some 4294967295), numbered "TO" none] = some [1, 2, 4294967295, 3] := by
  have settled : settle [numbered "IF" none, numbered "DO" (some 2), numbered "OF" (some 4294967295),
      numbered "TO" none] = .ok ⟨[⟨0, 0, some "a", .keyword, "IF", 1, none, false, .api⟩,
        ⟨1, 1, some "a", .keyword, "DO", 2, none, false, .api⟩,
        ⟨2, 2, some "a", .keyword, "OF", 4294967295, none, false, .api⟩,
        ⟨3, 3, some "a", .keyword, "TO", 3, none, false, .api⟩]⟩ := by decide
  obtain ⟨_, _, _, smallest, _, counted⟩ := ids_smallestFree settled (by decide)
  exact ⟨_, settled, rfl, smallest, counted⟩

end ScannerGen
