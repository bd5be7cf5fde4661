import Mutagen.Json
import Mutagen.Path
import Mutagen.Table
import Mutagen.Text.Basic

/-!
# Members of JSON documents

Looking up a value by the keys on the way to it, in a document whose members
are in ascending order.
-/
namespace Mutagen
namespace Json

mutual

/-- The document with the members of its objects in ascending order. -/
def sorted : Json → Json
  | array items => array (sortedItems items)
  | object members => object (sortedMembers members)
  | j => j

def sortedItems : List Json → List Json
  | [] => []
  | j :: js => j.sorted :: sortedItems js

def sortedMembers : List (String × Json) → List (String × Json)
  | [] => []
  | (k, j) :: ms => insertEntry k j.sorted (sortedMembers ms)

end

/-- The member of an object under a key. -/
def member? (key : String) : Json → Option Json
  | object members => members.lookup key
  | _ => none

/-- The value under a key with dots between the members on the way. -/
def dotted? (j : Json) (key : String) : Option Json :=
  (Path.splitOn '.' key.toList).foldlM (fun j part => j.member? (String.ofList part)) j

/-- A value on a line of its own; texts stand without quotes. -/
def line (j : Json) : Text :=
  (match j with
    | text t => t
    | j => j.pretty.toList) ++ ['\n']

end Json
end Mutagen
