/-
  CSharpGen/Table.lean
  ====================
  **Tables keyed by text, and lists ordered by text** — the two small
  containers of the generator.  A table keeps the order in which its keys were
  first put and holds each key once; putting a known key replaces its value in
  place.  An ordered list keeps its members in increasing order of a text key
  and the first member put for each key.  Texts are ordered by their characters.
-/

namespace CSharpGen

/-- Values under text keys, in the order in which the keys were first put. -/
abbrev Table (α : Type) := List (String × α)

namespace Table

variable {α β : Type}

/-- The value under a key. -/
def get? (key : String) : Table α → Option α
  | [] => none
  | (k, v) :: rest => if k = key then some v else get? key rest

/-- Whether the table has a value under the key. -/
def has (key : String) (t : Table α) : Bool := (get? key t).isSome

/-- Put a value under a key: in place if the key is known, at the end otherwise. -/
def put (key : String) (value : α) : Table α → Table α
  | [] => [(key, value)]
  | (k, v) :: rest => if k = key then (key, value) :: rest else (k, v) :: put key value rest

/-- The same keys with values related by `r`; the order of the keys does not matter. -/
def same (r : α → β → Bool) (a : Table α) (b : Table β) : Bool :=
  a.length == b.length && a.all fun (key, v) =>
    match get? key b with
    | some w => r v w
    | none => false

/-- What was put under a key is found there. -/
@[simp] theorem get?_put_self (key : String) (value : α) (t : Table α) :
    (t.put key value).get? key = some value := by
  induction t with
  | nil => simp [put, get?]
  | cons e rest ih => by_cases h : e.1 = key <;> simp [put, get?, h, ih]

/-- Putting under one key leaves the others alone. -/
theorem get?_put_of_ne {key other : String} (h : key ≠ other) (value : α) (t : Table α) :
    (t.put key value).get? other = t.get? other := by
  induction t with
  | nil => simp [put, get?, h]
  | cons e rest ih =>
    by_cases hk : e.1 = key
    · simp [put, get?, hk, h]
    · by_cases ho : e.1 = other
      · simp [put, get?, ho, Ne.symm h]
      · simp [put, get?, hk, ho, ih]

end Table

namespace Ordered

variable {α : Type}

/-- Put a member into a list in increasing order of `key`.  A member whose key is
    already there is left out. -/
def insert (key : α → String) (a : α) : List α → List α
  | [] => [a]
  | b :: rest =>
    if key a < key b then a :: b :: rest
    else if key a = key b then b :: rest
    else b :: insert key a rest

/-- The members in increasing order of `key`, the first of each key only. -/
def ofList (key : α → String) (as : List α) : List α :=
  as.foldl (fun sorted a => insert key a sorted) []

/-- Put a member behind those whose key is not greater. -/
def insertLast (key : α → String) (a : α) : List α → List α
  | [] => [a]
  | b :: rest => if key a < key b then a :: b :: rest else b :: insertLast key a rest

/-- All members in increasing order of `key`; equal keys keep their order. -/
def sort (key : α → String) (as : List α) : List α :=
  as.foldl (fun sorted a => insertLast key a sorted) []

theorem perm_insertLast (key : α → String) (a : α) (sorted : List α) :
    (insertLast key a sorted).Perm (a :: sorted) := by
  induction sorted with
  | nil => exact .refl _
  | cons b rest ih =>
    unfold insertLast
    split
    · exact .refl _
    · exact (ih.cons b).trans (.swap a b rest)

/-- Sorting keeps all members. -/
theorem perm_sort (key : α → String) (as : List α) : (sort key as).Perm as := by
  have hfold : ∀ (as sorted : List α),
      (as.foldl (fun sorted a => insertLast key a sorted) sorted).Perm (sorted ++ as) := by
    intro as
    induction as with
    | nil => intro sorted; simp
    | cons a rest ih =>
      intro sorted
      refine (ih _).trans (((perm_insertLast key a sorted).append_right rest).trans ?_)
      exact List.perm_middle.symm
  exact hfold as []

theorem mem_sort (key : α → String) (as : List α) (a : α) : a ∈ sort key as ↔ a ∈ as :=
  (perm_sort key as).mem_iff

end Ordered

/-- One member of each class of members that `same` does not tell apart. -/
def distinct {α : Type} (same : α → α → Bool) (as : List α) : List α :=
  as.foldl (fun kept a => if kept.any (same a) then kept else kept ++ [a]) []

/-- Two lists of one length whose members are related one by one. -/
def sameList {α β : Type} (r : α → β → Bool) : List α → List β → Bool
  | [], [] => true
  | a :: as, b :: bs => r a b && sameList r as bs
  | _, _ => false

/-- Two optional values, both missing or both there and related. -/
def sameOption {α β : Type} (r : α → β → Bool) : Option α → Option β → Bool
  | none, none => true
  | some a, some b => r a b
  | _, _ => false

end CSharpGen
