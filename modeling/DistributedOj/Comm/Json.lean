import DistributedOj.Comm.Text

/-!
# JSON values and HTTP responses

`Json::Value`, and what the servers use of jsoncpp and of an HTTP response.
jsoncpp is not part of the repository: its parser and its conversions are the
fields of `JsonCpp` and `JsonReader`. `JsonCpp.documented` and
`JsonReader.documented` are jsoncpp as documented, for a given parser: an index
into anything but an object or null throws, and so does a conversion to a
number of a string, an array, an object or (for integers) of a number out of
range. A parser throws where values are nested too deeply.
-/

namespace OJ.Comm

/-- `Json::Value`. -/
inductive Json where
  | null
  | bool (b : Bool)
  | int (n : Int)
  | real (x : Float)
  | str (s : Str)
  | arr (vs : List Json)
  | obj (fields : List (Str × Json))

/-- `Json::Exception`: why jsoncpp threw. -/
inductive JsonException where
  | tooDeep
  | notObject
  | notConvertible
  | outOfRange
  deriving DecidableEq, Repr

/-- What jsoncpp offers: `parseFromStream`, the non-const `operator[]` with a
string key, and the conversions; and what a `double` becomes as an `uint64_t`, which
C++ leaves undefined for one that does not fit. -/
structure JsonCpp where
  parse : Str → Except JsonException (Option Json)
  index : Json → Str → Except JsonException Json
  asUInt64 : Json → Except JsonException UInt64
  asDouble : Json → Except JsonException Float
  asFloat : Json → Except JsonException Float32
  staticCast : Float → UInt64

/-- What jsoncpp offers to read a text: `Json::Reader::parse`, which says
whether it succeeds and leaves something in the value in any case, the
non-const `operator[]`, `get` with a default, and the conversions. -/
structure JsonReader where
  parse : Str → Except JsonException (Bool × Json)
  index : Json → Str → Except JsonException Json
  get : Json → Str → Json → Except JsonException Json
  asString : Json → Except JsonException Str
  asInt : Json → Except JsonException Int

namespace Json

/-- `operator[]`: a missing member of an object, or any member of null, is
null. -/
def index : Json → Str → Except JsonException Json
  | null, _ => .ok null
  | obj fields, key => .ok ((fields.lookup key).getD null)
  | _, _ => .error .notObject

def asUInt64 : Json → Except JsonException UInt64
  | null => .ok 0
  | bool b => .ok (if b then 1 else 0)
  | int n => if 0 ≤ n ∧ n < 2 ^ 64 then .ok (UInt64.ofNat n.toNat) else .error .outOfRange
  | real x => if 0 ≤ x ∧ x ≤ 18446744073709551615 then .ok x.toUInt64 else .error .outOfRange
  | _ => .error .notConvertible

def asDouble : Json → Except JsonException Float
  | null => .ok 0
  | bool b => .ok (if b then 1 else 0)
  | int n => .ok (Float.ofInt n)
  | real x => .ok x
  | _ => .error .notConvertible

def asFloat (v : Json) : Except JsonException Float32 := v.asDouble.map Float.toFloat32

/-- `get`: the default for a missing member. -/
def get : Json → Str → Json → Except JsonException Json
  | null, _, defaultValue => .ok defaultValue
  | obj fields, key, defaultValue => .ok ((fields.lookup key).getD defaultValue)
  | _, _, _ => .error .notObject

/-- `asString`, for a given text of a real number. -/
def asString (realText : Float → Str) : Json → Except JsonException Str
  | null => .ok []
  | bool b => .ok (if b then "true" else "false").toList
  | int n => .ok (toStringI n)
  | real x => .ok (realText x)
  | str s => .ok s
  | _ => .error .notConvertible

def asInt : Json → Except JsonException Int
  | null => .ok 0
  | bool b => .ok (if b then 1 else 0)
  | int n => if -2 ^ 31 ≤ n ∧ n < 2 ^ 31 then .ok n else .error .outOfRange
  | real x => if -2147483648 ≤ x ∧ x ≤ 2147483647 then .ok x.toInt64.toInt else .error .outOfRange
  | _ => .error .notConvertible

end Json

/-- jsoncpp as documented, with the parser `parse`. -/
def JsonCpp.documented (parse : Str → Except JsonException (Option Json)) : JsonCpp :=
  ⟨parse, Json.index, Json.asUInt64, Json.asDouble, Json.asFloat, Float.toUInt64⟩

/-- A reader as documented, with the parser `parse`. -/
def JsonReader.documented (parse : Str → Except JsonException (Bool × Json)) (realText : Float → Str) : JsonReader :=
  ⟨parse, Json.index, Json.get, Json.asString realText, Json.asInt⟩

/-- `httplib::Response`, as far as the servers read it. -/
structure Response where
  status : Int
  body : Str
  deriving DecidableEq, Repr

end OJ.Comm
