/-
# `SelectorStream.Event.Css` — events as CSS text

`Event.css` is the fragment of a selector that an event reports.  The brackets
of the stream and the boundaries between alternatives have no text of their
own; `css` on a whole stream puts `, ` before every alternative but the first.

The text is normalized: combinators but the descendant stand between blanks,
attribute operands between double quotes.
-/
import SelectorStream.Event.Basic
import SelectorStream.Text.Quoted

namespace SelectorStream

def Comparison.operator : Comparison → List Char
  | .exact => ['=']
  | .includes => ['~', '=']
  | .dashMatch => ['|', '=']
  | .prefixMatch => ['^', '=']
  | .suffixMatch => ['$', '=']
  | .substring => ['*', '=']

def Structural.cssChars : Structural → List Char
  | .firstChild => ":first-child".toList
  | .lastChild => ":last-child".toList
  | .onlyChild => ":only-child".toList
  | .empty => ":empty".toList

def Combinator.cssChars : Combinator → List Char
  | .child => [' ', '>', ' ']
  | .descendant => [' ']
  | .adjacent => [' ', '+', ' ']
  | .generalSibling => [' ', '~', ' ']

def Head.cssChars : Head → List Char
  | .element name => name.text.toList
  | .universal => ['*']

def AttributeTest.cssChars : AttributeTest → List Char
  | .present => []
  | .compares comparison operand => comparison.operator ++ Quoted.quote operand.toList

def Filter.cssChars : Filter → List Char
  | .identifier value => '#' :: value.toList
  | .styleClass value => '.' :: value.toList
  | .attribute name test => '[' :: (name.text.toList ++ test.cssChars ++ [']'])
  | .structural predicate => predicate.cssChars
  | .nthChild coefficients => ":nth-child(".toList ++ coefficients.chars ++ [')']

namespace Event

def cssChars : Event → List Char
  | .init | .close | .selector => []
  | .head h => h.cssChars
  | .filter f => f.cssChars
  | .combinator c => c.cssChars

def css (e : Event) : String :=
  String.ofList e.cssChars

/-- The characters of a stream, of which a first alternative has begun or not. -/
def streamChars (begun : Bool) : List Event → List Char
  | [] => []
  | .selector :: rest =>
    if begun then ',' :: ' ' :: streamChars true rest else streamChars true rest
  | e :: rest => e.cssChars ++ streamChars begun rest

/-- The text so far with that of one more event, and whether a first
alternative has begun. -/
def addCss (text : String × Bool) (e : Event) : String × Bool :=
  match e with
  | .selector => (if text.2 then text.1 ++ ", " else text.1, true)
  | e => (text.1 ++ e.css, text.2)

end Event

/-- The selector list that a stream of events reports. -/
def css (stream : List Event) : String :=
  (stream.foldl Event.addCss ("", false)).1

theorem toList_foldl_addCss (stream : List Event) (text : String) (begun : Bool) :
    (stream.foldl Event.addCss (text, begun)).1.toList =
      text.toList ++ Event.streamChars begun stream := by
  induction stream generalizing text begun with
  | nil => simp [Event.streamChars]
  | cons e rest ih =>
    match e with
    | .selector => cases begun <;> simp [Event.addCss, Event.streamChars, ih]
    | .init | .close | .head _ | .filter _ | .combinator _ =>
      simp [Event.addCss, Event.streamChars, Event.css, ih]

theorem toList_css (stream : List Event) :
    (css stream).toList = Event.streamChars false stream := by
  simp [css, toList_foldl_addCss]

end SelectorStream
