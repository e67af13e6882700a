import DocSignature.JavaScript.Phrase

/-!
# Objects and classes

The members of objects and of classes are alike: both have names of the same forms, and methods with
the same modifiers. A word such as `get` is a modifier only if a property name follows it; in a class
also only if no semicolon may be left out behind it, since it could be a member of its own.

An object is read so that it may still become a pattern.
-/

namespace DocSignature.JavaScript

variable (read : Grammar)

/-! ## Names and modifiers -/

/-- Whether a text starts with a quote. -/
def startsString (s : List Char) : Bool := s.head? == some '\x22' || s.head? == some '\x27'

/-- Whether a text starts with a property name. -/
def startsProperty (s : List Char) : Bool :=
  s.head? == some '[' || s.head? == some '#' || startsString s || 0 < numberLength s ||
    !(wordOf s).isEmpty

/-- A property name: a word, a private name, a string, a number, or an expression in brackets. -/
def propertyName : Reader Node := do
  let t ← peek
  if t.head? == some '[' then
    let s ← start
    mark "["
    let e ← read (.expression {})
    mark "]"
    Reader.node "computed_property_name" s [e]
  else if t.head? == some '#' then privateName
  else if startsString t then string
  else if 0 < numberLength t then number
  else anyWord "property_identifier"

/-- Takes one of some words if it is a modifier here. Where `star` is true it may stand before a
star. -/
def triesModifier (inBody : Bool) (words : List String) (star : Bool) : Reader Bool := do
  let w ← peekWord
  let behind := (← here).drop w.length
  let t := behind.next.rest
  let follows := startsProperty t || (star && t.head? == some '*')
  if words.contains w && follows && !(inBody && semicolonAt false behind) then
    set behind
    return true
  else return false

/-- Takes the modifiers of a member, and tells whether they are those of a method only. -/
def modifiers (inBody : Bool) : Reader Bool := do
  let _ ← triesModifier inBody ["static"] true
  let async ← triesModifier inBody ["async"] true
  let kind ← if ← tries "*" then pure true else triesModifier inBody ["get", "set"] false
  return async || kind

/-! ## Decorators -/

/-- A decorator: a name or a member, and what it is called with. -/
def decorator : Reader Node := do
  let s ← start
  mark "@"
  let _ ← name "identifier"
  let _ ← Reader.many do
    if ← tries "." then return some (← anyWord "property_identifier") else return none
  if ← sees "(" then Reader.node "decorator" s [← arguments read]
  else Reader.node "decorator" s []

/-- The decorators here. -/
def decorators : Reader (List Node) :=
  Reader.many do
    if ← sees "@" then return some (← decorator read) else return none

/-! ## Objects -/

/-- A member that has a meaning in a pattern only: what is to the left of an equals sign that comes
next. -/
def memberDefault (s : Nat) (left : Node) : Reader Node := do
  mark "="
  let right ← read (.expression {})
  Reader.node "object_assignment_pattern" s [fill "left" left, fill "right" right]

/-- What follows the name of a member: a value or a function. -/
def memberBehind (s : Nat) (methodOnly : Bool) (key : Node) : Reader Node := do
  if ← sees "(" then functionBehind read "method_definition" s [fill "name" key]
  else
    guard !methodOnly
    mark ":"
    let value ← read (.expression {})
    Reader.node "pair" s [fill "key" key, fill "value" value]

/-- A member that starts with a bracket: an array pattern with a default, or a name in brackets. -/
def bracketMember : Reader Node := do
  let s ← start
  mark "["
  let items ← slots read "]"
  if ← seesEquals then
    let left ← Reader.node "array" s (items.filterMap id)
    memberDefault read s (← asDestructuring left)
  else
    match items with
    | [some e] =>
      guard (e.kind != "spread_element")
      memberBehind read s false (← Reader.node "computed_property_name" s [e])
    | _ => failure

/-- A member with a name, or a name that stands for itself. -/
def namedMember : Reader Node := do
  let s ← start
  let _ ← decorators read
  let methodOnly ← modifiers false
  let key ← propertyName read
  if methodOnly || (← sees "(") || (← sees ":") || key.kind != "property_identifier" then
    memberBehind read s methodOnly key
  else if ← seesEquals then
    memberDefault read s { key with kind := "shorthand_property_identifier_pattern" }
  else return { key with kind := "shorthand_property_identifier" }

/-- An object. -/
def object : Reader Node := do
  let s ← start
  mark "\x7b"
  let items ← slotsOf "\x7d" do
    match ← peek with
    | '.' :: _ => spreadable read
    | '[' :: _ => bracketMember read
    | '{' :: _ => memberDefault read (← start) (← asDestructuring (← read .object))
    | _ => namedMember read
  return objectOf (← Reader.node "object" s (items.filterMap id))

/-! ## Classes -/

/-- A method, a field or a block of a class. -/
def classMember : Reader Node := do
  let s ← start
  let front ← decorators read
  if (← peekWord) == "static" && (← peekBehindWord).head? == some '{' then
    word "static"
    Reader.node "class_static_block" s (front ++ [fill "body" (← block read)])
  else
    let methodOnly ← modifiers true
    let key ← propertyName read
    if !(← ended false) && (← sees "(") then
      functionBehind read "method_definition" s (front ++ [fill "name" key])
    else
      guard !methodOnly
      let value ←
        if !(← ended false) && (← tries "=") then
          pure [fill "value" (← read (.expression { ends := true }))]
        else pure []
      let field ← Reader.node "field_definition" s (front ++ fill "property" key :: value)
      semicolon !value.isEmpty
      return field

/-- The members of a class in braces. -/
def classBody : Reader Node := do
  let s ← start
  mark "\x7b"
  let items ← Reader.many do
    skipPageComments
    if ← sees "\x7d" then return none
    else if ← tries ";" then return some []
    else return some [← classMember read]
  mark "\x7d"
  Reader.node "class_body" s items.flatten

/-- A class from the word `class` on. It starts at an offset with the decorators in front. -/
def classBehind (kind : String) (s : Nat) (front : List Node) : Reader Node := do
  word "class"
  let w ← peekWord
  let named ←
    if w.isEmpty || reserved.contains w then pure []
    else pure [fill "name" (← name "identifier")]
  let heritage ← if ← triesWord "extends" then pure [← read (.expression {})] else pure []
  let body ← classBody read
  Reader.node kind s (front ++ named ++ heritage ++ [fill "body" body])

end DocSignature.JavaScript
