/-
# `SelectorStream.Event.Kind` — what an event can be about

A selector list is reported as a stream of events, one for each production of
its grammar.  The kind of an event says which production, without names or
values.  Kinds fall into the five categories that the grammar of streams
distinguishes:

    init
      selector  head?  filter*  (combinator  head?  filter*)*
      selector  ...
    close

`Kind.all` lists the kinds once each, in the order in which they are reported
and sorted.
-/

namespace SelectorStream

/-- How the value of an attribute compares with the operand: it is equal (`=`), has it as
one of its words (`~=`), is equal or goes on with a `-` (`|=`), begins with it (`^=`),
ends with it (`$=`) or has it anywhere (`*=`). -/
inductive Comparison where
  | exact
  | includes
  | dashMatch
  | prefixMatch
  | suffixMatch
  | substring
deriving DecidableEq

inductive Structural where
  | firstChild
  | lastChild
  | onlyChild
  | empty
deriving DecidableEq

inductive Combinator where
  | child
  | descendant
  | adjacent
  | generalSibling
deriving DecidableEq

inductive HeadKind where
  | element
  | universal
deriving DecidableEq

inductive FilterKind where
  | identifier
  | styleClass
  /-- A test of an attribute: for its presence, or by a comparison. -/
  | attribute (comparison : Option Comparison)
  | structural (predicate : Structural)
  | nthChild
deriving DecidableEq

inductive Kind where
  | init
  | close
  /-- The next alternative of the list begins. -/
  | selector
  | head (kind : HeadKind)
  | filter (kind : FilterKind)
  | combinator (kind : Combinator)
deriving DecidableEq

inductive Category where
  | bracket
  | delimiter
  | head
  | filter
  | combinator
deriving DecidableEq

namespace Kind

def all : List Kind :=
  [.init, .close, .selector,
    .head .element, .head .universal,
    .filter .identifier, .filter .styleClass,
    .filter (.attribute none),
    .filter (.attribute (some .exact)), .filter (.attribute (some .includes)),
    .filter (.attribute (some .dashMatch)), .filter (.attribute (some .prefixMatch)),
    .filter (.attribute (some .suffixMatch)), .filter (.attribute (some .substring)),
    .filter (.structural .firstChild), .filter (.structural .lastChild),
    .filter .nthChild,
    .filter (.structural .onlyChild), .filter (.structural .empty),
    .combinator .child, .combinator .descendant, .combinator .adjacent,
    .combinator .generalSibling]

theorem mem_all (kind : Kind) : kind ∈ all := by
  match kind with
  | .init | .close | .selector => decide
  | .head .element | .head .universal => decide
  | .filter .identifier | .filter .styleClass | .filter .nthChild => decide
  | .filter (.attribute none) => decide
  | .filter (.attribute (some c)) => cases c <;> decide
  | .filter (.structural p) => cases p <;> decide
  | .combinator c => cases c <;> decide

def rank (kind : Kind) : Nat :=
  all.idxOf kind

def sort (kinds : List Kind) : List Kind :=
  kinds.mergeSort fun a b => a.rank ≤ b.rank

def name : Kind → String
  | .init => "init"
  | .close => "close"
  | .selector => "selector"
  | .head .element => "type"
  | .head .universal => "universal"
  | .filter .identifier => "id"
  | .filter .styleClass => "class"
  | .filter (.attribute none) => "attribute-exists"
  | .filter (.attribute (some .exact)) => "attribute-exact"
  | .filter (.attribute (some .includes)) => "attribute-includes"
  | .filter (.attribute (some .dashMatch)) => "attribute-dash-match"
  | .filter (.attribute (some .prefixMatch)) => "attribute-prefix-match"
  | .filter (.attribute (some .suffixMatch)) => "attribute-suffix-match"
  | .filter (.attribute (some .substring)) => "attribute-substring"
  | .filter (.structural .firstChild) => "first-child"
  | .filter (.structural .lastChild) => "last-child"
  | .filter .nthChild => "nth-child"
  | .filter (.structural .onlyChild) => "only-child"
  | .filter (.structural .empty) => "empty"
  | .combinator .child => "child"
  | .combinator .descendant => "descendant"
  | .combinator .adjacent => "adjacent"
  | .combinator .generalSibling => "general-sibling"

def tag : Kind → String
  | .init => "Init"
  | .close => "Close"
  | .selector => "Selector"
  | .head .element => "Type"
  | .head .universal => "Universal"
  | .filter .identifier => "Id"
  | .filter .styleClass => "Class"
  | .filter (.attribute none) => "AttributeExists"
  | .filter (.attribute (some .exact)) => "AttributeExact"
  | .filter (.attribute (some .includes)) => "AttributeIncludes"
  | .filter (.attribute (some .dashMatch)) => "AttributeDashMatch"
  | .filter (.attribute (some .prefixMatch)) => "AttributePrefixMatch"
  | .filter (.attribute (some .suffixMatch)) => "AttributeSuffixMatch"
  | .filter (.attribute (some .substring)) => "AttributeSubstring"
  | .filter (.structural .firstChild) => "FirstChild"
  | .filter (.structural .lastChild) => "LastChild"
  | .filter .nthChild => "NthChild"
  | .filter (.structural .onlyChild) => "OnlyChild"
  | .filter (.structural .empty) => "Empty"
  | .combinator .child => "Child"
  | .combinator .descendant => "Descendant"
  | .combinator .adjacent => "Adjacent"
  | .combinator .generalSibling => "GeneralSibling"

def ofTag? (tag : String) : Option Kind :=
  all.find? fun kind => kind.tag == tag

theorem ofTag?_tag (kind : Kind) : ofTag? kind.tag = some kind := by
  have every : ∀ k ∈ all, ofTag? k.tag = some k := by decide
  exact every kind (mem_all kind)

def category : Kind → Category
  | .init | .close => .bracket
  | .selector => .delimiter
  | .head _ => .head
  | .filter _ => .filter
  | .combinator _ => .combinator

def isCombinator (kind : Kind) : Bool :=
  kind.category = .combinator

def isAttribute : Kind → Bool
  | .filter (.attribute _) => true
  | _ => false

def isComponent : Kind → Bool
  | .head _ | .filter _ => true
  | _ => false

end Kind

end SelectorStream
