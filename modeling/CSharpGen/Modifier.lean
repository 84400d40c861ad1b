/-
  CSharpGen/Modifier.lean
  =======================
  **Modifier keywords and sets of them** — the order of `Modifier.all` is the
  order in which C# code spells modifiers, and a set lists its members in that
  order, so that `public static readonly` comes out whatever the order in which
  the modifiers were added.

  A set of modifiers is nothing but its membership test.  Two sets with the
  same members are therefore equal, and adding modifiers commutes.
-/

namespace CSharpGen

/-- A modifier keyword. -/
inductive Modifier where
  | publicKw | protectedKw | internalKw | privateKw | newKw | staticKw | constKw | abstractKw
  | virtualKw | overrideKw | sealedKw | readonlyKw | volatileKw | externKw | unsafeKw | asyncKw
  | partialKw | implicitKw | explicitKw | operatorKw | refKw | outKw | inKw | paramsKw | thisKw
  deriving DecidableEq, Repr

namespace Modifier

/-- The modifiers in the order in which they are spelled. -/
def all : List Modifier := [
  publicKw, protectedKw, internalKw, privateKw, newKw, staticKw, constKw, abstractKw,
  virtualKw, overrideKw, sealedKw, readonlyKw, volatileKw, externKw, unsafeKw, asyncKw,
  partialKw, implicitKw, explicitKw, operatorKw, refKw, outKw, inKw, paramsKw, thisKw]

/-- The spelling of a modifier. -/
def keyword : Modifier → String
  | publicKw => "public"
  | protectedKw => "protected"
  | internalKw => "internal"
  | privateKw => "private"
  | newKw => "new"
  | staticKw => "static"
  | constKw => "const"
  | abstractKw => "abstract"
  | virtualKw => "virtual"
  | overrideKw => "override"
  | sealedKw => "sealed"
  | readonlyKw => "readonly"
  | volatileKw => "volatile"
  | externKw => "extern"
  | unsafeKw => "unsafe"
  | asyncKw => "async"
  | partialKw => "partial"
  | implicitKw => "implicit"
  | explicitKw => "explicit"
  | operatorKw => "operator"
  | refKw => "ref"
  | outKw => "out"
  | inKw => "in"
  | paramsKw => "params"
  | thisKw => "this"

/-- The modifier with the given spelling. -/
def ofKeyword? (s : String) : Option Modifier := all.find? fun m => m.keyword == s

/-- The access modifiers. -/
def isVisibility : Modifier → Bool
  | publicKw | protectedKw | internalKw | privateKw => true
  | _ => false

/-- The modifiers that may stand on a parameter, and nowhere else. -/
def onParameter : Modifier → Bool
  | refKw | outKw | inKw | paramsKw | thisKw => true
  | _ => false

/-- Several spellings with commas between them. -/
def spell : List Modifier → String
  | [] => ""
  | [m] => m.keyword
  | m :: n :: rest => m.keyword ++ ", " ++ spell (n :: rest)

end Modifier

/-- A set of modifiers, given by its membership test. -/
@[ext]
structure ModifierSet where
  has : Modifier → Bool

namespace ModifierSet

/-- No modifier. -/
def empty : ModifierSet := ⟨fun _ => false⟩

instance : Inhabited ModifierSet := ⟨empty⟩

/-- The set with one more member. -/
def insert (m : Modifier) (s : ModifierSet) : ModifierSet := ⟨fun n => n == m || s.has n⟩

/-- The set with some more members. -/
def addAll (s : ModifierSet) (ms : List Modifier) : ModifierSet :=
  ms.foldl (fun s m => s.insert m) s

/-- The set of the listed modifiers. -/
def ofList (ms : List Modifier) : ModifierSet := empty.addAll ms

/-- The members in spelling order. -/
def toList (s : ModifierSet) : List Modifier := Modifier.all.filter s.has

/-- Whether two sets have the same members. -/
def same (a b : ModifierSet) : Bool := Modifier.all.all fun m => a.has m == b.has m

/-! ### Members -/

/-- A set with one more member. -/
@[simp] theorem has_insert (m n : Modifier) (s : ModifierSet) :
    (s.insert m).has n = (n == m || s.has n) := rfl

/-- The members after adding some. -/
@[simp] theorem has_addAll (s : ModifierSet) (ms : List Modifier) (n : Modifier) :
    (s.addAll ms).has n = (ms.contains n || s.has n) := by
  induction ms generalizing s with
  | nil => simp [addAll]
  | cons m ms ih =>
    have step : s.addAll (m :: ms) = (s.insert m).addAll ms := rfl
    rw [step, ih, has_insert, List.contains_cons]
    cases n == m <;> simp

/-- Every modifier is listed. -/
theorem mem_all (m : Modifier) : m ∈ Modifier.all := by cases m <;> decide

/-- The list of a set has its members. -/
@[simp] theorem mem_toList (s : ModifierSet) (m : Modifier) : m ∈ s.toList ↔ s.has m = true := by
  simp [toList, mem_all]

/-- Sets with the same members are equal. -/
theorem same_iff_eq (a b : ModifierSet) : a.same b = true ↔ a = b := by
  constructor
  · intro h
    ext m
    exact eq_of_beq (List.all_eq_true.1 h m (mem_all m))
  · rintro rfl
    simp [same]

end ModifierSet

end CSharpGen
