import Mutagen.Text.Basic

/-!
# TOML documents

A document is a table of values. A date or a time is kept as its normal text.
-/
namespace Mutagen

inductive Toml where
  | string (t : Text)
  | integer (n : Int)
  | float (x : Float)
  | boolean (b : Bool)
  | moment (normal : Text)
  | array (items : List Toml)
  | table (entries : List (String × Toml))

namespace Toml

/-- Whole numbers lie from the negative of this up to below it. -/
def limit : Nat := Nat.pow 2 63

/-- The value under a key of a table. -/
def get? (t : Toml) (key : String) : Option Toml :=
  match t with
  | table entries => entries.lookup key
  | _ => none

end Toml
end Mutagen
