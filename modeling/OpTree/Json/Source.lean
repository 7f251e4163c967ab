import OpTree.Json.Lexer

/-!
A JSON text as a tree, as far as the text is well formed.

Each list and object says how it ends: with its bracket, or with what stands there instead. A
value that breaks off ends every list and object around it, so a fault sits in the tree where
it sits in the text, and whoever walks the tree in order meets the first fault first.
-/

namespace OpTree.Json

inductive ListEnd
  | closed
  /-- The last item broke off, and tells why itself. -/
  | broken
  /-- The text ends where a comma or the bracket is due. -/
  | cut
  | cutAfterComma
  | closedAfterComma
  /-- Something else stands where a comma or the bracket is due. -/
  | commaless
  deriving DecidableEq

inductive Key
  | name (s : String)
  | unpaired (read : Fault)
  deriving DecidableEq

inductive ObjectEnd
  | closed
  | broken
  | cut
  | cutAfterComma
  | closedAfterComma
  | commaless
  /-- Something that is no string stands where a key is due. -/
  | keyless
  | brokenKey (read skip : Fault)
  | cutAfterKey (k : Key)
  /-- Something else stands where the colon behind a key is due. -/
  | colonless (k : Key)
  deriving DecidableEq

/-- A JSON value as it stands in a text. -/
inductive Source
  | leaf (l : Leaf)
  | list (items : List Source) (ending : ListEnd)
  | object (members : List (Key × Source)) (ending : ObjectEnd)

/-- A list or object that is still open, with what it holds so far in reverse. -/
inductive Frame
  | list (done : List Source)
  | object (done : List (Key × Source)) (key : Key)

namespace Source

instance : Inhabited Source := ⟨.leaf .null⟩

/-- The text ends where a value is due. -/
def missing : Source := .leaf (.broken .nothing (.endOfText .value) (.endOfText .value))

/-- Something that begins no value stands where a value is due. -/
def stray : Source := .leaf (.broken .other .expectedValue .expectedValue)

/-- A value that broke off, with the lists and objects around it. -/
def unwind : List Frame → Source → Source
  | [], s => s
  | .list done :: fs, s => unwind fs (.list (s :: done).reverse .broken)
  | .object done k :: fs, s => unwind fs (.object ((k, s) :: done).reverse .broken)

/-- The end of an object at which no colon stands behind a key. -/
def colonDue (k : Key) : List Token → ObjectEnd
  | [] => .cutAfterKey k
  | _ => .colonless k

/-- The end of an object at which no key stands. -/
def keyDue (afterComma : Bool) : List Token → ObjectEnd
  | [] => if afterComma then .cutAfterComma else .cut
  | .closeObject :: _ => if afterComma then .closedAfterComma else .closed
  | .leaf (.broken .quote read skip) :: _ => .brokenKey read skip
  | _ => .keyless

/-- The end of a list or object at which neither a comma nor the bracket stands. -/
def commaDue (done : List Source) : List Token → Source
  | [] => .list done.reverse .cut
  | _ => .list done.reverse .commaless

def memberCommaDue (done : List (Key × Source)) : List Token → Source
  | [] => .object done.reverse .cut
  | _ => .object done.reverse .commaless

def key? : Token → Option Key
  | .leaf (.string s) => some (.name s)
  | .leaf (.unpaired f) => some (.unpaired f)
  | _ => none

mutual

/-- Reads on where a value is due, inside the open frames; gives the finished tree and the
tokens behind it. -/
def readValue (fs : List Frame) : List Token → Source × List Token
  | [] => (unwind fs missing, [])
  | .leaf (.broken start read skip) :: _ => (unwind fs (.leaf (.broken start read skip)), [])
  | .leaf l :: ts => readAfter fs (.leaf l) ts
  | .openList :: .closeList :: ts => readAfter fs (.list [] .closed) ts
  | .openList :: [] => (unwind fs (.list [] .cut), [])
  | .openList :: t :: ts => readValue (.list [] :: fs) (t :: ts)
  | .openObject :: .closeObject :: ts => readAfter fs (.object [] .closed) ts
  | .openObject :: ts => readMember fs [] false ts
  | _ => (unwind fs stray, [])

/-- Reads on where a key is due. -/
def readMember (fs : List Frame) (done : List (Key × Source)) (afterComma : Bool) :
    List Token → Source × List Token
  | [] => (unwind fs (.object done.reverse (keyDue afterComma [])), [])
  | t :: ts =>
    match key? t with
    | none => (unwind fs (.object done.reverse (keyDue afterComma (t :: ts))), [])
    | some k =>
      match ts with
      | .colon :: r => readValue (.object done k :: fs) r
      | r => (unwind fs (.object done.reverse (colonDue k r)), [])

/-- Reads on behind a complete value. -/
def readAfter (fs : List Frame) (v : Source) (ts : List Token) : Source × List Token :=
  match fs, ts with
  | [], ts => (v, ts)
  | .list done :: fs, .closeList :: ts => readAfter fs (.list (v :: done).reverse .closed) ts
  | .list done :: fs, [.comma] => (unwind fs (.list (v :: done).reverse .cutAfterComma), [])
  | .list done :: fs, .comma :: .closeList :: _ =>
    (unwind fs (.list (v :: done).reverse .closedAfterComma), [])
  | .list done :: fs, .comma :: ts => readValue (.list (v :: done) :: fs) ts
  | .list done :: fs, ts => (unwind fs (commaDue (v :: done) ts), [])
  | .object done k :: fs, .closeObject :: ts =>
    readAfter fs (.object ((k, v) :: done).reverse .closed) ts
  | .object done k :: fs, .comma :: ts => readMember fs ((k, v) :: done) true ts
  | .object done k :: fs, ts => (unwind fs (memberCommaDue ((k, v) :: done) ts), [])

end

/-- The value at the front of a text, and the tokens behind it. -/
def ofText (s : String) : Source × List Token := readValue [] (tokens s.toList)

end Source

end OpTree.Json
