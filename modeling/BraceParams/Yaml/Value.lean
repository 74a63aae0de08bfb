import BraceParams.Yaml.Scalar
import BraceParams.Yaml.Token

namespace BraceParams.Yaml

def Octets.unmarked : Octets → Octets
  | 33 :: c :: name => c :: name
  | tag => tag

inductive Value where
  | null
  | boolean (b : Bool)
  | integer (n : Int)
  | float (x : Number.Binary64)
  | string (s : List Char)
  | sequence (items : List Value)
  | mapping (entries : List (Value × Value))
  | tagged (tag : Octets) (value : Value)
  deriving Inhabited, Repr

namespace Value

mutual

def same : Value → Value → Bool
  | null, null => true
  | boolean a, boolean b => a == b
  | integer a, integer b => a == b
  | float a, float b => a.same b
  | string a, string b => a == b
  | sequence a, sequence b => sameItems a b
  | mapping a, mapping b => a.length == b.length && sameEntries a b
  | tagged s a, tagged t b => Octets.unmarked s == Octets.unmarked t && same a b
  | _, _ => false

def sameItems : List Value → List Value → Bool
  | [], [] => true
  | a :: as, b :: bs => same a b && sameItems as bs
  | _, _ => false

def sameEntries : List (Value × Value) → List (Value × Value) → Bool
  | [], _ => true
  | (key, value) :: rest, other =>
    other.any (fun (key', value') => same key key' && same value value') && sameEntries rest other

end

end Value

end BraceParams.Yaml
