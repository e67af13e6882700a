import DocSignature.Proofs.Outcome
import DocSignature.Proofs.Surrogates

/-!
# Descriptors from JSON

`Signature.ofJson?` reads the object of a function, with those of its location and its parameters.
A member that may be left out is absent if it is, and must otherwise be of the right kind. So a
function is found again from its object (`Signature.ofJson?_toJson`).
-/

namespace DocSignature

/-! ## Reading objects -/

namespace Json

/-- The characters of a string value. -/
def string? : Json → Option String
  | .str t => Text.toString? t
  | _ => none

/-- A whole number. -/
def int? : Json → Option Int
  | .int n => some n
  | _ => none

/-- A truth value. -/
def bool? : Json → Option Bool
  | .bool b => some b
  | _ => none

/-- The items of an array, each read. -/
def items? {α : Type} (read : Json → Option α) : Json → Option (List α)
  | .arr items => items.mapM read
  | _ => none

/-- The value of a member that may be left out. -/
def optional? {α : Type} (read : Json → Option α) : Option Json → Option (Option α)
  | some j => (read j).map some
  | none => some none

end Json

/-- The location that an object shows. -/
def Location.ofJson? (j : Json) : Option Location := do
  let line ← (j.get? "line").bind Json.int?
  let column ← (j.get? "column").bind Json.int?
  (Location.ofInts line column).toOption

/-- The default that a value is : a text or a number. -/
def Default.ofJson? : Json → Option Default
  | .str t => some (.text t)
  | .int n => some (.number (.whole n))
  | .float x => some (.number (.float x))
  | _ => none

/-- The parameter that an object shows. -/
def Parameter.ofJson? (j : Json) : Option Parameter := do
  let name ← (j.get? "name").bind Json.string?
  let parent ← Json.optional? Json.string? (j.get? "parent")
  let type ← Json.optional? (·.string?.bind ParameterType.ofWord?) (j.get? "type")
  let default ← Json.optional? Default.ofJson? (j.get? "defaultValue")
  (Parameter.make name parent type default).toOption

/-- The function that an object shows. -/
def Signature.ofJson? (j : Json) : Option Signature := do
  let name ← (j.get? "name").bind Json.string?
  let location ← (j.get? "location").bind Location.ofJson?
  let params ← (j.get? "params").bind (Json.items? Parameter.ofJson?)
  let returns ← ((j.get? "returns").bind (·.get? "returns")).bind Json.bool?
  (Signature.make name location params returns).toOption

/-! ## Finding descriptors again -/

theorem Text.toString?_ofString (s : String) : Text.toString? (Text.ofString s) = some s := by
  have hchar (c : Char) : (CodePoint.ofChar c).toChar? = some c := by
    have h := CodePoint.not_isSurrogate_ofChar c
    rw [CodePoint.toChar?, if_neg h]
    exact congrArg some (Char.ofNat_toNat c)
  have hchars (l : List Char) : Text.toChars? (Text.ofChars l) = some l := by
    induction l with
    | nil => rfl
    | cons c l ih =>
      simp only [Text.toChars?, Text.ofChars, List.map_cons, List.mapM_cons, hchar] at ih ⊢
      rw [ih]
      rfl
  rw [Text.toString?, Text.ofString, hchars, Option.map_some, String.ofList_toList]

theorem Text.ofString_injective : Function.Injective Text.ofString := by
  intro s t h
  have hs := Text.toString?_ofString s
  rw [h, Text.toString?_ofString] at hs
  exact (Option.some.inj hs).symm

/-- The keys of an object with plain keys are compared as strings. -/
theorem Json.get?_ofMembers (members : List (String × Json)) (key : String) :
    (Json.ofMembers members).get? key = (members.reverse.find? (·.1 == key)).map (·.2) := by
  have hkey (k : String) : (Text.ofString k == Text.ofString key) = (k == key) := by
    rw [Bool.eq_iff_iff, beq_iff_eq, beq_iff_eq, Text.ofString_injective.eq_iff]
  simp only [Json.get?, Json.ofMembers, ← List.map_reverse, List.find?_map, Function.comp_def, hkey,
    Option.map_map]

theorem Json.string?_ofString (s : String) : (Json.ofString s).string? = some s :=
  Text.toString?_ofString s

theorem ParameterType.ofWord?_word (t : ParameterType) : ofWord? t.word = some t := by
  cases t <;> decide

theorem Location.ofJson?_toJson (l : Location) : Location.ofJson? l.toJson = some l := by
  simp [Location.ofJson?, Location.toJson, Json.get?_ofMembers, Json.int?, l.ofInts_self,
    Except.toOption]

theorem Default.ofJson?_toJson (v : Default) : Default.ofJson? v.toJson = some v := by
  match v with
  | .text t => rfl
  | .number (.whole n) => rfl
  | .number (.float x) => rfl

theorem Json.get?_append (l m : List (String × Json)) (key : String) :
    (Json.ofMembers (l ++ m)).get? key =
      ((Json.ofMembers m).get? key).or ((Json.ofMembers l).get? key) := by
  simp only [Json.get?_ofMembers, List.reverse_append, List.find?_append, Option.map_or]

/-- A member that may be left out is found under its own key only. -/
theorem Json.get?_optionalMember (key other : String) (value : Option Json) :
    (Json.ofMembers (optionalMember key value)).get? other =
      if key = other then value else none := by
  rw [Json.get?_ofMembers]
  cases value with
  | none => simp [optionalMember]
  | some j => by_cases h : key = other <;> simp [optionalMember, h]

/-- What is read back of a member that may be left out is absent if the member is. -/
theorem Json.optional?_map {α : Type} {read : Json → Option α} {write : α → Json}
    (h : ∀ a, read (write a) = some a) (a : Option α) :
    Json.optional? read (a.map write) = some a := by
  cases a with
  | none => rfl
  | some a => simp [Json.optional?, h]

namespace Parameter

theorem make_self (p : Parameter) : make p.name p.parent p.type p.default = .ok p := by
  rw [make, dif_neg p.name_ne]

/-- The members of a parameter, by key. -/
theorem get?_toJson (p : Parameter) (key : String) : p.toJson.get? key =
    (if "defaultValue" = key then p.default.map Default.toJson else none).or
      ((if "type" = key then p.type.map fun t => Json.ofString t.word else none).or
        ((if "parent" = key then p.parent.map Json.ofString else none).or
          (if "name" = key then some (Json.ofString p.name) else none))) := by
  change (Json.ofMembers (optionalMember "name" (some (Json.ofString p.name)) ++
    optionalMember "parent" _ ++ optionalMember "type" _ ++
      optionalMember "defaultValue" _)).get? key = _
  simp only [Json.get?_append, Json.get?_optionalMember]

theorem ofJson?_toJson (p : Parameter) : ofJson? p.toJson = some p := by
  have hname : (p.toJson.get? "name").bind Json.string? = some p.name := by
    simp [get?_toJson, Json.string?_ofString]
  have hparent : Json.optional? Json.string? (p.toJson.get? "parent") = some p.parent := by
    simpa [get?_toJson] using Json.optional?_map Json.string?_ofString p.parent
  have hword (t : ParameterType) :
      (Json.ofString t.word).string?.bind ParameterType.ofWord? = some t := by
    rw [Json.string?_ofString, Option.bind_some, ParameterType.ofWord?_word]
  have htype : Json.optional? (·.string?.bind ParameterType.ofWord?) (p.toJson.get? "type") =
      some p.type := by
    have hget : p.toJson.get? "type" = p.type.map fun t => Json.ofString t.word := by
      simp [get?_toJson]
    rw [hget]
    exact Json.optional?_map hword p.type
  have hdefault : Json.optional? Default.ofJson? (p.toJson.get? "defaultValue") =
      some p.default := by
    simpa [get?_toJson] using Json.optional?_map Default.ofJson?_toJson p.default
  rw [ofJson?, hname, hparent, htype, hdefault]
  simp only [Option.bind_eq_bind, Option.bind_some, p.make_self]
  rfl

end Parameter

theorem Json.items?_map {α : Type} {read : Json → Option α} {write : α → Json}
    (h : ∀ a, read (write a) = some a) (l : List α) :
    Json.items? read (.arr (l.map write)) = some l := by
  change (l.map write).mapM read = _
  induction l with
  | nil => rfl
  | cons a l ih =>
    rw [List.map_cons, List.mapM_cons, h, ih]
    rfl

/-- A function is found again from its object. -/
theorem Signature.ofJson?_toJson (s : Signature) : Signature.ofJson? s.toJson = some s := by
  have hget (key : String) : s.toJson.get? key = _ := Json.get?_ofMembers _ key
  have hmake : Signature.make s.name s.location s.params s.returns = .ok s :=
    Signature.make_eq_ok_iff.mpr ⟨rfl, rfl, rfl, rfl⟩
  simp [Signature.ofJson?, hget, Json.get?_ofMembers, Json.string?_ofString,
    Location.ofJson?_toJson, Json.items?_map Parameter.ofJson?_toJson, Json.bool?, hmake,
    Except.toOption]

end DocSignature
