/-!
# Words in capitals

Upper case of the words that are written with the letters A to Z. Besides the small letters
there are ten characters of Unicode whose upper case is made of these letters alone: the two
old forms of i and s, the sharp s and seven ligatures. The upper case of any other character
holds a character that no such word has, and it stands for itself here.
-/

namespace Timeshift.Text

/-- The upper case of one character, which may be several characters. -/
def capital (c : Char) : List Char :=
  match c with
  | 'ı' => ['I']
  | 'ſ' => ['S']
  | 'ß' => ['S', 'S']
  | 'ﬀ' => ['F', 'F']
  | 'ﬁ' => ['F', 'I']
  | 'ﬂ' => ['F', 'L']
  | 'ﬃ' => ['F', 'F', 'I']
  | 'ﬄ' => ['F', 'F', 'L']
  | 'ﬅ' => ['S', 'T']
  | 'ﬆ' => ['S', 'T']
  | c => [c.toUpper]

/-- `text` is `word` when it is written in capitals. -/
def isCapitalsOf (word text : String) : Bool :=
  text.toList.flatMap capital == word.toList

end Timeshift.Text
