/-!
# The order of texts

Texts are ordered by their characters from left to right, characters by their code points, and a
text comes before its continuations. Lists of texts are ordered in the same way by their members.
-/

namespace LispScript.Text

/-- Whether a text comes before another. -/
def charsBefore : List Char → List Char → Bool
  | _, [] => false
  | [], _ :: _ => true
  | c :: cs, d :: ds => if c = d then charsBefore cs ds else c.toNat < d.toNat

/-- Whether a list of texts comes before another or is the same. -/
def listNotAfter : List String → List String → Bool
  | [], _ => true
  | _ :: _, [] => false
  | s :: ss, t :: ts => if s = t then listNotAfter ss ts else charsBefore s.toList t.toList

end LispScript.Text
