import FrameUI.Dict

/-!
# Tables from lists

A table that is filled from a list of pairs gives each name the last value that the list has
for it, and filling a table from its own entries gives the table back.
-/

namespace FrameUI.Dict

variable {α : Type}

/-! ### The entries of a table -/

theorem place_of_keys_lt (name : String) (value : α) (es : List (String × α))
    (h : ∀ key ∈ es.map Prod.fst, key < name) : place name value es = es ++ [(name, value)] := by
  induction es with
  | nil => rfl
  | cons e es ih =>
    rcases e with ⟨k, old⟩
    have hk : k < name := h k (by simp)
    have hnot : ¬ name < k := fun hlt => String.lt_irrefl k (String.lt_trans hk hlt)
    have hne : k ≠ name := by
      intro heq
      subst heq
      exact String.lt_irrefl k hk
    have hrest := ih fun key hkey =>
      h key (by simp only [List.map_cons, List.mem_cons, hkey, or_true])
    simp only [place, hnot, if_false, hne, hrest, List.cons_append]

theorem entries_foldl_insert (pairs : List (String × α)) (d : Dict α)
    (h : ((d.entries ++ pairs).map Prod.fst).Pairwise (· < ·)) :
    (pairs.foldl (fun acc e => acc.insert e.1 e.2) d).entries = d.entries ++ pairs := by
  induction pairs generalizing d with
  | nil => simp
  | cons e pairs ih =>
    have hinsert : (d.insert e.1 e.2).entries = d.entries ++ [e] := by
      apply place_of_keys_lt
      intro key hkey
      rw [List.map_append, List.pairwise_append] at h
      exact h.2.2 key hkey e.1 (by simp)
    have hassoc : d.entries ++ e :: pairs = (d.insert e.1 e.2).entries ++ pairs := by
      rw [hinsert]
      simp
    rw [hassoc] at h ⊢
    exact ih _ h

theorem ofList_entries (d : Dict α) : ofList d.entries = d := by
  apply ext_entries
  have h := entries_foldl_insert d.entries empty (by simpa [empty] using d.sorted)
  simpa [empty, ofList] using h

theorem mem_of_mem_place (name : String) (value : α) (entry : String × α)
    (es : List (String × α)) (h : entry ∈ place name value es) :
    entry = (name, value) ∨ entry ∈ es := by
  induction es with
  | nil => exact Or.inl (List.mem_singleton.mp h)
  | cons e es ih =>
    rcases e with ⟨k, old⟩
    rw [place] at h
    split at h
    · exact List.mem_cons.mp h
    · split at h
      · rcases List.mem_cons.mp h with heq | hmem
        · exact Or.inl heq
        · exact Or.inr (List.mem_cons_of_mem _ hmem)
      · rcases List.mem_cons.mp h with heq | hmem
        · exact Or.inr (heq ▸ List.mem_cons_self)
        · exact (ih hmem).imp_right (List.mem_cons_of_mem _)

theorem mem_entries_insert {d : Dict α} {name : String} {value : α} {entry : String × α}
    (h : entry ∈ (d.insert name value).entries) : entry = (name, value) ∨ entry ∈ d.entries :=
  mem_of_mem_place name value entry d.entries h

theorem mem_of_lookup (name : String) (value : α) (es : List (String × α))
    (h : lookup name es = some value) : (name, value) ∈ es := by
  induction es with
  | nil => cases h
  | cons e es ih =>
    rcases e with ⟨k, v⟩
    rw [lookup] at h
    split at h
    · rename_i hk
      cases h
      rw [hk]
      exact List.mem_cons_self
    · exact List.mem_cons_of_mem _ (ih h)

theorem lookup_map {β : Type} (change : String → α → β) (name : String)
    (es : List (String × α)) :
    lookup name (es.map fun e => (e.1, change e.1 e.2)) = (lookup name es).map (change name) := by
  induction es with
  | nil => rfl
  | cons e es ih =>
    rcases e with ⟨k, v⟩
    rw [List.map_cons, lookup, lookup]
    split
    · rename_i hk
      rw [hk]
      rfl
    · exact ih

/-! ### The last value of a name -/

/-- The last value that a list of pairs gives to a name. -/
def lastOf? (name : String) (pairs : List (String × α)) : Option α :=
  (pairs.reverse.find? fun pair => pair.1 == name).map Prod.snd

theorem lastOf?_append (name : String) (pairs more : List (String × α)) :
    lastOf? name (pairs ++ more) = (lastOf? name more).or (lastOf? name pairs) := by
  unfold lastOf?
  rw [List.reverse_append, List.find?_append]
  cases more.reverse.find? fun pair => pair.1 == name with
  | none => rfl
  | some pair => rfl

theorem mem_of_lastOf? (name : String) (value : α) (pairs : List (String × α))
    (h : lastOf? name pairs = some value) : (name, value) ∈ pairs := by
  obtain ⟨pair, hfind, rfl⟩ := Option.map_eq_some_iff.1 h
  have hname : pair.1 = name := by simpa using List.find?_some hfind
  rw [← hname]
  exact List.mem_reverse.1 (List.mem_of_find?_eq_some hfind)

theorem lastOf?_cons (name : String) (pair : String × α) (pairs : List (String × α)) :
    lastOf? name (pair :: pairs) =
      (lastOf? name pairs).or (if pair.1 = name then some pair.2 else none) := by
  have happend := lastOf?_append name [pair] pairs
  rw [List.singleton_append] at happend
  rw [happend]
  by_cases h : pair.1 = name
  · simp [lastOf?, h]
  · simp [lastOf?, h]

/-- Where every name has one value, the last value of a name is its value. -/
theorem lastOf?_eq_some_iff (name : String) (value : α) (pairs : List (String × α))
    (h : (pairs.map Prod.fst).Nodup) : lastOf? name pairs = some value ↔ (name, value) ∈ pairs := by
  refine ⟨mem_of_lastOf? name value pairs, ?_⟩
  induction pairs with
  | nil => exact fun hmem => absurd hmem List.not_mem_nil
  | cons pair pairs ih =>
    rw [List.map_cons, List.nodup_cons] at h
    intro hmem
    rw [lastOf?_cons]
    rcases List.mem_cons.1 hmem with rfl | hmem
    · have hnone : lastOf? name pairs = none := by
        cases hlast : lastOf? name pairs with
        | none => rfl
        | some other => exact absurd (List.mem_map_of_mem (mem_of_lastOf? _ _ _ hlast)) h.1
      rw [hnone, if_pos rfl, Option.none_or]
    · rw [ih h.2 hmem, Option.some_or]

theorem find?_foldl_insert (pairs : List (String × α)) (d : Dict α) (name : String) :
    (pairs.foldl (fun acc e => acc.insert e.1 e.2) d).find? name =
      (lastOf? name pairs).or (d.find? name) := by
  induction pairs generalizing d with
  | nil => rfl
  | cons pair pairs ih =>
    rw [List.foldl_cons, ih, lastOf?_cons, find?_insert, Option.or_assoc]
    congr 1
    split
    · rfl
    · rfl

theorem find?_ofList (pairs : List (String × α)) (name : String) :
    (ofList pairs).find? name = lastOf? name pairs := by
  rw [ofList, find?_foldl_insert, find?_empty, Option.or_none]

/-- In which order pairs of different names are inserted does not matter. -/
theorem ofList_perm (pairs pairs' : List (String × α)) (h : (pairs.map Prod.fst).Nodup)
    (hperm : pairs.Perm pairs') : ofList pairs = ofList pairs' := by
  have h' : (pairs'.map Prod.fst).Nodup := (hperm.map Prod.fst).nodup_iff.1 h
  apply ext_find
  intro name
  apply Option.ext
  intro value
  rw [find?_ofList, find?_ofList, lastOf?_eq_some_iff _ _ _ h, lastOf?_eq_some_iff _ _ _ h',
    hperm.mem_iff]

theorem find?_merge (d other : Dict α) (name : String) :
    (d.merge other).find? name = (other.find? name).or (d.find? name) := by
  have hlast : lastOf? name other.entries = other.find? name := by
    rw [← find?_ofList, ofList_entries]
  rw [merge, find?_foldl_insert, hlast]

theorem merge_ofList (pairs more : List (String × α)) :
    (ofList pairs).merge (ofList more) = ofList (pairs ++ more) := by
  apply ext_find
  intro name
  rw [find?_merge, find?_ofList, find?_ofList, find?_ofList, lastOf?_append]

theorem insert_ofList (pairs : List (String × α)) (name : String) (value : α) :
    (ofList pairs).insert name value = ofList (pairs ++ [(name, value)]) := by
  simp [ofList, List.foldl_append]

theorem lastOf?_map {β : Type} (change : String → α → β) (name : String)
    (pairs : List (String × α)) :
    lastOf? name (pairs.map fun pair => (pair.1, change pair.1 pair.2)) =
      (lastOf? name pairs).map (change name) := by
  induction pairs with
  | nil => rfl
  | cons pair pairs ih =>
    rw [List.map_cons, lastOf?_cons, lastOf?_cons, ih]
    cases lastOf? name pairs with
    | some value => rfl
    | none =>
      simp only [Option.map_none, Option.none_or]
      split
      · rename_i h
        rw [h]
        rfl
      · rfl

end FrameUI.Dict
