/-!
# Name tables

A `Dict` is a finite table from names to values, kept as a list of entries in strictly
increasing order of the names. The order of the entries is therefore part of the value,
and two tables with the same look-ups are equal. Main statements: what a look-up finds
after `insert`, `erase` and `filter`, and `ext_find`.
-/

namespace FrameUI

/-- A finite table from names to values, with its entries in increasing order of names. -/
structure Dict (α : Type) where
  entries : List (String × α)
  sorted : (entries.map Prod.fst).Pairwise (· < ·)

namespace Dict

variable {α : Type}

/-! ### Ordered entry lists -/

/-- The value that a list of entries gives to a name. -/
def lookup (name : String) : List (String × α) → Option α
  | [] => none
  | (key, value) :: rest => if key = name then some value else lookup name rest

/-- Puts an entry in its place, over an entry of the same name. -/
def place (name : String) (value : α) : List (String × α) → List (String × α)
  | [] => [(name, value)]
  | (key, old) :: rest =>
    if name < key then (name, value) :: (key, old) :: rest
    else if key = name then (name, value) :: rest
    else (key, old) :: place name value rest

theorem lt_of_not_lt_of_ne (a b : String) (h : ¬ a < b) (hne : b ≠ a) : b < a := by
  rcases Decidable.em (b < a) with hlt | hlt
  · exact hlt
  · exact absurd (String.le_antisymm (String.not_lt.mp h) (String.not_lt.mp hlt)) hne

theorem mem_keys_place (name key : String) (value : α) (es : List (String × α)) :
    key ∈ (place name value es).map Prod.fst ↔ key = name ∨ key ∈ es.map Prod.fst := by
  induction es with
  | nil => simp [place]
  | cons e es ih =>
    rcases e with ⟨k, old⟩
    simp only [place]
    split
    · simp
    · split
      · rename_i h
        simp [h]
      · simp only [List.map_cons, List.mem_cons, ih]
        constructor
        · rintro (h | h | h)
          · exact Or.inr (Or.inl h)
          · exact Or.inl h
          · exact Or.inr (Or.inr h)
        · rintro (h | h | h)
          · exact Or.inr (Or.inl h)
          · exact Or.inl h
          · exact Or.inr (Or.inr h)

theorem sorted_place (name : String) (value : α) (es : List (String × α))
    (h : (es.map Prod.fst).Pairwise (· < ·)) :
    ((place name value es).map Prod.fst).Pairwise (· < ·) := by
  induction es with
  | nil => simp [place]
  | cons e es ih =>
    rcases e with ⟨k, old⟩
    simp only [List.map_cons, List.pairwise_cons] at h
    rcases h with ⟨hk, hes⟩
    simp only [place]
    split
    · rename_i hlt
      simp only [List.map_cons, List.pairwise_cons, List.mem_cons]
      refine ⟨?_, hk, hes⟩
      rintro x (rfl | hx)
      · exact hlt
      · exact String.lt_trans hlt (hk x hx)
    · rename_i hlt
      split
      · rename_i heq
        subst heq
        simp only [List.map_cons, List.pairwise_cons]
        exact ⟨hk, hes⟩
      · rename_i hne
        simp only [List.map_cons, List.pairwise_cons]
        refine ⟨?_, ih hes⟩
        intro x hx
        rcases (mem_keys_place name x value es).mp hx with rfl | hx
        · exact lt_of_not_lt_of_ne x k hlt hne
        · exact hk x hx

theorem lookup_place (name key : String) (value : α) (es : List (String × α)) :
    lookup key (place name value es) = if name = key then some value else lookup key es := by
  induction es with
  | nil => simp [place, lookup]
  | cons e es ih =>
    rcases e with ⟨k, old⟩
    simp only [place]
    split
    · simp [lookup]
    · split
      · rename_i h
        subst h
        by_cases hk : k = key <;> simp [lookup, hk]
      · rename_i hne
        by_cases hk : k = key
        · subst hk
          have : ¬ name = k := fun h => hne h.symm
          simp [lookup, this]
        · simp [lookup, hk, ih]

theorem lookup_isSome_iff (name : String) (es : List (String × α)) :
    (lookup name es).isSome ↔ name ∈ es.map Prod.fst := by
  induction es with
  | nil => simp [lookup]
  | cons e es ih =>
    rcases e with ⟨k, v⟩
    by_cases h : k = name
    · simp [lookup, h]
    · have h' : ¬ name = k := fun hk => h hk.symm
      simp [lookup, h, h', ih]

theorem lookup_eq_none_of_lt (name : String) (es : List (String × α))
    (h : ∀ key ∈ es.map Prod.fst, name < key) : lookup name es = none := by
  cases hl : lookup name es with
  | none => rfl
  | some v =>
    have hm := (lookup_isSome_iff name es).mp (by simp [hl])
    exact absurd (h name hm) (String.lt_irrefl name)

/-! ### The table operations -/

def empty : Dict α := ⟨[], List.Pairwise.nil⟩

instance : EmptyCollection (Dict α) := ⟨empty⟩
instance : Inhabited (Dict α) := ⟨empty⟩

def find? (d : Dict α) (name : String) : Option α := lookup name d.entries

def contains (d : Dict α) (name : String) : Bool := (d.find? name).isSome

def insert (d : Dict α) (name : String) (value : α) : Dict α :=
  ⟨place name value d.entries, sorted_place name value d.entries d.sorted⟩

def filter (d : Dict α) (keep : String → α → Bool) : Dict α :=
  ⟨d.entries.filter fun e => keep e.1 e.2,
    d.sorted.sublist (List.filter_sublist.map Prod.fst)⟩

def erase (d : Dict α) (name : String) : Dict α := d.filter fun key _ => key != name

def size (d : Dict α) : Nat := d.entries.length

def isEmpty (d : Dict α) : Bool := d.entries.isEmpty

def keys (d : Dict α) : List String := d.entries.map Prod.fst

/-- Adds every entry of `other`, whose values win. -/
def merge (d other : Dict α) : Dict α :=
  other.entries.foldl (fun acc e => acc.insert e.1 e.2) d

/-- Inserts pairs from left to right, so that the last value of a name stays. -/
def ofList (pairs : List (String × α)) : Dict α :=
  pairs.foldl (fun acc e => acc.insert e.1 e.2) empty

@[ext] theorem ext_entries (d e : Dict α) (h : d.entries = e.entries) : d = e := by
  cases d
  cases e
  simpa using h

instance [DecidableEq α] : DecidableEq (Dict α) := fun d e =>
  decidable_of_iff (d.entries = e.entries) ⟨ext_entries d e, fun h => h ▸ rfl⟩

/-! ### Look-ups -/

@[simp] theorem find?_empty (name : String) : (empty : Dict α).find? name = none := rfl

@[simp] theorem find?_insert (d : Dict α) (name key : String) (value : α) :
    (d.insert name value).find? key = if name = key then some value else d.find? key :=
  lookup_place name key value d.entries

theorem find?_filter (d : Dict α) (keep : String → α → Bool) (name : String) :
    (d.filter keep).find? name = (d.find? name).filter (keep name) := by
  rcases d with ⟨es, hs⟩
  simp only [find?, filter]
  induction es with
  | nil => rfl
  | cons e es ih =>
    rcases e with ⟨k, v⟩
    simp only [List.map_cons, List.pairwise_cons] at hs
    rcases hs with ⟨hk, hes⟩
    by_cases hn : k = name
    · subst hn
      cases hp : keep k v with
      | true => simp [lookup, hp, Option.filter]
      | false =>
        have hnone : lookup k es = none := lookup_eq_none_of_lt k es hk
        have hrest := ih hes
        rw [hnone] at hrest
        simp [lookup, hp, Option.filter] at hrest ⊢
        exact hrest
    · cases hp : keep k v with
      | true => simp [lookup, hp, hn, ih hes]
      | false => simp [lookup, hp, hn, ih hes]

theorem find?_erase (d : Dict α) (name key : String) :
    (d.erase name).find? key = if key = name then none else d.find? key := by
  rw [erase, find?_filter]
  by_cases h : key = name
  · subst h
    cases d.find? key <;> simp [Option.filter]
  · cases d.find? key <;> simp [Option.filter, h]

theorem entries_eq_of_lookup (es fs : List (String × α))
    (hes : (es.map Prod.fst).Pairwise (· < ·)) (hfs : (fs.map Prod.fst).Pairwise (· < ·))
    (h : ∀ name, lookup name es = lookup name fs) : es = fs := by
  induction es generalizing fs with
  | nil =>
    cases fs with
    | nil => rfl
    | cons f fs => simpa [lookup] using h f.1
  | cons e es ih =>
    cases fs with
    | nil => simpa [lookup] using h e.1
    | cons f fs =>
      rcases e with ⟨k, v⟩
      rcases f with ⟨l, w⟩
      simp only [List.map_cons, List.pairwise_cons] at hes hfs
      rcases hes with ⟨hk, hes⟩
      rcases hfs with ⟨hl, hfs⟩
      have hkl : k = l := by
        by_cases hne : k = l
        · exact hne
        · exfalso
          have h1 := h k
          have h2 := h l
          have hne' : ¬ l = k := fun hlk => hne hlk.symm
          simp only [lookup, if_true, hne', if_false] at h1
          simp only [lookup, if_true, hne, if_false] at h2
          have m1 : k ∈ fs.map Prod.fst := (lookup_isSome_iff k fs).mp (by simp [← h1])
          have m2 : l ∈ es.map Prod.fst := (lookup_isSome_iff l es).mp (by simp [h2])
          exact String.lt_irrefl k (String.lt_trans (hk l m2) (hl k m1))
      subst hkl
      have hv : v = w := by simpa [lookup] using h k
      subst hv
      have hrest : es = fs := by
        apply ih fs hes hfs
        intro name
        by_cases hn : k = name
        · subst hn
          rw [lookup_eq_none_of_lt k es hk, lookup_eq_none_of_lt k fs hl]
        · simpa [lookup, hn] using h name
      rw [hrest]

/-- Two tables that give every name the same value are equal. -/
theorem ext_find (d e : Dict α) (h : ∀ name, d.find? name = e.find? name) : d = e :=
  ext_entries d e (entries_eq_of_lookup d.entries e.entries d.sorted e.sorted h)

end Dict
end FrameUI
