import CommandScript.Grammar.Kind

/-! Elements of usage lines. -/
namespace CommandScript.Grammar

/-- What one word of a command has to be: a fixed word, or an argument with a name. -/
inductive Element
  | literal (text : String)
  | argument (name : String) (kind : Kind)
deriving DecidableEq

namespace Element

/-- The name under which a match of the element is reported. -/
def name : Element → String
  | literal text => text
  | argument name _ => name

def isLiteral : Element → Bool
  | literal _ => true
  | argument _ _ => false

def isGreedy : Element → Bool
  | argument _ .greedy => true
  | _ => false

/-- Equality of elements, in which bounds are compared as numbers. -/
def same : Element → Element → Bool
  | literal a, literal b => a == b
  | argument a j, argument b k => a == b && j.same k
  | _, _ => false

def chars : Element → List Char
  | literal text => text.toList
  | argument name kind => '<' :: (name.toList ++ ':' :: (kind.chars ++ ['>']))

end Element
end CommandScript.Grammar
