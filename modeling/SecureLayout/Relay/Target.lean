import SecureLayout.Text.Blank
import SecureLayout.Text.Octets

/-!
The target of a request to the relay: where it goes, and which document and ticket its query names.
-/

namespace SecureLayout.Relay

/-- Which document a connection is for, and the ticket that pays for it. -/
structure CollabQuery where
  doc : String
  ticket : String
  deriving DecidableEq, Repr

/-- How a request is answered. -/
inductive Admission where
  | notFound
  | badQuery
  | upgraded (q : CollabQuery)
  deriving DecidableEq, Repr

/-- The status of the answer. -/
def Admission.status : Admission → Nat
  | notFound => 404
  | badQuery => 400
  | upgraded _ => 101

/-- The value of a hexadecimal digit. -/
def hexValue? (c : Char) : Option Nat :=
  if c.isDigit then some (c.toNat - '0'.toNat)
  else if 'a' ≤ c ∧ c ≤ 'f' then some (c.toNat - 'a'.toNat + 10)
  else if 'A' ≤ c ∧ c ≤ 'F' then some (c.toNat - 'A'.toNat + 10)
  else none

/-- Octets of a query text: a plus is a blank, and a percent sign with two digits is an octet. -/
def queryOctets : List Char → List UInt8
  | [] => []
  | '+' :: r => 0x20 :: queryOctets r
  | '%' :: a :: b :: r =>
    match hexValue? a, hexValue? b with
    | some x, some y => UInt8.ofNat (16 * x + y) :: queryOctets r
    | _, _ => 0x25 :: queryOctets (a :: b :: r)
  | c :: r => (String.singleton c).toUTF8.toList ++ queryOctets r

def queryText (s : List Char) : String :=
  String.ofList (Text.decodeOctets (queryOctets s))

/-- Names and values of a query, in order. What has no equals sign has an empty value. -/
def queryPairs (query : List Char) : List (String × String) :=
  ((Text.splitOnChar '&' query).filter (!·.isEmpty)).map fun part =>
    (queryText (part.takeWhile (· != '=')), queryText ((part.dropWhile (· != '=')).drop 1))

/-- The value of a name that is given exactly once. -/
def theValue? (name : String) (pairs : List (String × String)) : Option String :=
  match pairs.filter (·.1 == name) with
  | [(_, v)] => some v
  | _ => none

/-- Where replicas connect. -/
def collabPath : String := "/v1/collab"

/-- The only path there is asks for a document and a ticket; other names of the query are overlooked. -/
def Admission.ofTarget (target : String) : Admission :=
  let located := target.toList.takeWhile (· != '#')
  let path := located.takeWhile (· != '?')
  let pairs := queryPairs ((located.dropWhile (· != '?')).drop 1)
  if String.ofList path != collabPath then .notFound
  else
    match theValue? "doc" pairs, theValue? "ticket" pairs with
    | some doc, some ticket => .upgraded ⟨doc, ticket⟩
    | _, _ => .badQuery

end SecureLayout.Relay
