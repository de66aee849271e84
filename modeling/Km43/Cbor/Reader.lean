import Km43.Library.Slice
import Km43.Limits
import Km43.Library.BigEndian

namespace Km43.Cbor

open Library

inductive CborError
  | endOfInput
  | trailingBytes
  | trailingItem
  | unfinished
  | indefiniteLength
  | tagNotAllowed
  | floatNotAllowed
  | simpleValueNotAllowed
  | reservedHead
  | keyNotInteger
  | repeatedKey
  | misplacedKey
  | keysNotAscending
  | depthExceeded
  | stringTooLong
  | invalidUtf8
  | wrongType
  | integerOutOfRange
  | destinationTooSmall
  deriving DecidableEq

inductive Major
  | unsigned
  | negative
  | bytes
  | text
  | array
  | map
  | tag
  | simple
  deriving DecidableEq

def Major.bits : Major → ℕ
  | .unsigned => 0
  | .negative => 1
  | .bytes => 2
  | .text => 3
  | .array => 4
  | .map => 5
  | .tag => 6
  | .simple => 7

def Major.of (byte : UInt8) : Major :=
  match byte.toNat >>> 5 with
  | 0 => .unsigned
  | 1 => .negative
  | 2 => .bytes
  | 3 => .text
  | 4 => .array
  | 5 => .map
  | 6 => .tag
  | _ => .simple

inductive Width
  | inline
  | one
  | two
  | four
  | eight
  deriving DecidableEq

def Width.of (argument : ℕ) : Width :=
  if argument < 24 then .inline
  else if argument ≤ 0xFF then .one
  else if argument ≤ 0xFFFF then .two
  else if argument ≤ 0xFFFFFFFF then .four
  else .eight

def Width.bytes : Width → ℕ
  | .inline => 0
  | .one => 1
  | .two => 2
  | .four => 4
  | .eight => 8

def Width.info (low : ℕ) : Width → ℕ
  | .inline => low
  | .one => 24
  | .two => 25
  | .four => 26
  | .eight => 27

def isUtf8 (raw : Bytes) : Bool := (ByteArray.mk raw.toArray).validateUTF8

inductive Head
  | unsigned (argument : ℕ)
  | negative (argument : ℕ)
  | bytes (raw : Bytes)
  | text (raw : Bytes)
  | array (count : ℕ)
  | map (pairs : ℕ)
  | bool (value : Bool)
  deriving DecidableEq

structure KeyRank where
  negative : Bool
  argument : ℕ
  deriving DecidableEq

def KeyRank.le (a b : KeyRank) : Bool :=
  (!a.negative && b.negative) || (a.negative == b.negative && decide (a.argument ≤ b.argument))

theorem KeyRank.le_refl (a : KeyRank) : a.le a = true := by simp [KeyRank.le]

theorem KeyRank.le_trans {a b c : KeyRank} (hab : a.le b = true) (hbc : b.le c = true) :
    a.le c = true := by
  obtain ⟨na, aa⟩ := a
  obtain ⟨nb, ab⟩ := b
  obtain ⟨nc, ac⟩ := c
  cases na <;> cases nb <;> cases nc <;> simp_all [KeyRank.le]
  all_goals omega

theorem KeyRank.le_total (a b : KeyRank) : a.le b = true ∨ b.le a = true := by
  obtain ⟨na, aa⟩ := a
  obtain ⟨nb, ab⟩ := b
  cases na <;> cases nb <;> simp [KeyRank.le]
  all_goals omega

def Head.rank : Head → Except CborError KeyRank
  | .unsigned argument => .ok ⟨false, argument⟩
  | .negative argument => .ok ⟨true, argument⟩
  | .bytes _ | .text _ | .array _ | .map _ | .bool _ => .error .keyNotInteger

inductive Nesting
  | array
  | map
  deriving DecidableEq

structure Open where
  kind : Nesting
  remaining : ℕ
  lastKey : Option KeyRank
  start : ℕ
  deriving DecidableEq

structure Unsettled where
  key : KeyRank
  start : ℕ
  stop : ℕ
  deriving DecidableEq

structure Nest where
  opened : List Open
  deepest : ℕ
  deriving DecidableEq

namespace Nest

def new : Nest := ⟨[], 0⟩

def depth (n : Nest) : ℕ := n.opened.length

def settle (n : Nest) : Nest := { n with opened := n.opened.dropWhile (·.remaining == 0) }

def atKey (n : Nest) : Bool :=
  match n.opened with
  | top :: _ => top.kind == .map && top.remaining % 2 == 0
  | [] => false

def countItem (n : Nest) : Nest :=
  match n.opened with
  | top :: rest => { n with opened := { top with remaining := top.remaining - 1 } :: rest }
  | [] => n

def hasRoom (n : Nest) : Bool := decide (n.depth < maxDepth)

def push (n : Nest) (kind : Nesting) (items start : ℕ) : Except CborError Nest :=
  if n.depth < maxDepth then
    .ok { opened := ⟨kind, items, none, start⟩ :: n.opened
          deepest := max n.deepest (n.depth + 1) }
  else .error .depthExceeded

def takeKey (n : Nest) (key : ℕ) : Except CborError Nest :=
  match n.opened with
  | [] => .error .misplacedKey
  | top :: rest =>
    let key : KeyRank := ⟨false, key⟩
    let top' := { top with lastKey := some key }
    match top.lastKey with
    | some last => if key.le last then .error .keysNotAscending
        else .ok { n with opened := top' :: rest }
    | none => .ok { n with opened := top' :: rest }

def readKey (n : Nest) (key : KeyRank) (pos : ℕ) : Except CborError (Option Unsettled × Nest) :=
  match n.opened with
  | [] => .error .misplacedKey
  | top :: rest =>
    let noted := { n with opened := { top with lastKey := some key } :: rest }
    match top.lastKey with
    | some greatest => if key.le greatest then .ok (some ⟨key, top.start, pos⟩, n)
        else .ok (none, noted)
    | none => .ok (none, noted)

end Nest

structure CborReader where
  bytes : Bytes
  next : ℕ
  nest : Nest
  checks : Bool
  walking : Bool
  unsettled : Option Unsettled
  skipped : Option Unsettled
  deriving DecidableEq

def simple (info : ℕ) : Except CborError Head :=
  if info = 20 then .ok (.bool false)
  else if info = 21 then .ok (.bool true)
  else if 25 ≤ info ∧ info ≤ 27 then .error .floatNotAllowed
  else if 28 ≤ info ∧ info ≤ 30 then .error .reservedHead
  else if 31 ≤ info then .error .indefiniteLength
  else .error .simpleValueNotAllowed

def Width.ofInfo (info : ℕ) : Except CborError Width :=
  if info ≤ 23 then .ok .inline
  else if info = 24 then .ok .one
  else if info = 25 then .ok .two
  else if info = 26 then .ok .four
  else if info = 27 then .ok .eight
  else if info ≤ 30 then .error .reservedHead
  else .error .indefiniteLength

namespace CborReader

def new (bytes : Bytes) : CborReader := ⟨bytes, 0, .new, true, false, none, none⟩

def take (r : CborReader) (len : ℕ) : Except CborError (Bytes × CborReader) :=
  match slice r.bytes r.next (r.next + len) with
  | some raw => .ok (raw, { r with next := r.next + len })
  | none => .error .endOfInput

def argument (r : CborReader) (info : ℕ) : Except CborError (ℕ × CborReader) :=
  match Width.ofInfo info with
  | .error e => .error e
  | .ok .inline => .ok (info, r)
  | .ok w =>
    match r.take w.bytes with
    | .ok (raw, r) => .ok (BigEndian.value raw, r)
    | .error e => .error e

-- `usize::try_from` refuses only a length past every slice, which `take` refuses as well.
def length (r : CborReader) (info : ℕ) : Except CborError (ℕ × CborReader) := r.argument info

def count (r : CborReader) (info perItem : ℕ) : Except CborError (ℕ × CborReader) := do
  let (count, r) ← r.length info
  if count * perItem > r.bytes.length - r.next then .error .endOfInput
  else .ok (count, r)

def decodeAs (r : CborReader) (info : ℕ) : Major → Except CborError (Head × CborReader)
  | .unsigned => do
    let (n, r) ← r.argument info
    .ok (.unsigned n, r)
  | .negative => do
    let (n, r) ← r.argument info
    .ok (.negative n, r)
  | .bytes => do
    let (len, r) ← r.length info
    let (raw, r) ← r.take len
    .ok (.bytes raw, r)
  | .text => do
    let (len, r) ← r.length info
    if len > maxString then .error .stringTooLong
    else
      let (raw, r) ← r.take len
      if isUtf8 raw then .ok (.text raw, r) else .error .invalidUtf8
  | .array => do
    let (n, r) ← r.count info 1
    .ok (.array n, r)
  | .map => do
    let (n, r) ← r.count info 2
    .ok (.map n, r)
  | .tag => .error .tagNotAllowed
  | .simple => do
    let head ← simple info
    .ok (head, r)

def decode (r : CborReader) (first : UInt8) : Except CborError (Head × CborReader) :=
  r.decodeAs (first &&& 0x1F).toNat (Major.of first)

/-- How a reader looks for a key among the pairs before it. `headBy` takes it as a parameter
because the search reads with a reader of its own, whose `checks` are off. -/
abbrev Search := Bytes → Unsettled → Except CborError Unit

def settleSkippedBy (search : Search) (r : CborReader) : Except CborError CborReader :=
  match r.skipped with
  | some key =>
    match search r.bytes key with
    | .ok _ => .ok { r with skipped := none }
    | .error e => .error e
  | none => .ok r

def noteKey (search : Search) (r : CborReader) (key : KeyRank) (pos : ℕ) :
    Except CborError CborReader := do
  let (unsettled, nest) ← r.nest.readKey key pos
  let r := { r with nest := nest }
  match unsettled, r.walking with
  | some key, true =>
    let _ ← search r.bytes key
    .ok r
  | unsettled, false => .ok { r with unsettled := unsettled }
  | none, true => .ok r

def enter (r : CborReader) : Head → Except CborError CborReader
  | .array count => do
    let nest ← r.nest.push .array count r.next
    .ok { r with nest := nest }
  | .map pairs => do
    let nest ← r.nest.push .map (pairs * 2) r.next
    .ok { r with nest := nest }
  | .unsigned _ | .negative _ | .bytes _ | .text _ | .bool _ => .ok r

def peek (r : CborReader) : Except CborError UInt8 :=
  match r.bytes[r.next]? with
  | some first => .ok first
  | none => .error .endOfInput

/-- The key rule at a head: note a key, or settle the key before a value its decoder reads. -/
def accountKey (search : Search) (r : CborReader) (atKey : Bool) (pos : ℕ) (head : Head) :
    Except CborError CborReader :=
  if atKey then
    match head.rank with
    | .ok key => if r.checks then r.noteKey search key pos else .ok r
    | .error e => .error e
  else if r.walking then .ok r
  else .ok { r with unsettled := none }

def beforeHead (search : Search) (r : CborReader) : Except CborError CborReader :=
  if r.walking then .ok r else r.settleSkippedBy search

def settled (r : CborReader) : CborReader := { r with nest := r.nest.settle }

def headBy (search : Search) (r : CborReader) : Except CborError (Head × CborReader) := do
  let r ← r.beforeHead search
  let r := r.settled
  let atKey := r.nest.atKey
  let pos := r.next
  let first ← r.peek
  let (head, r) ← { r with next := r.next + 1 }.decode first
  let r ← r.accountKey search atKey pos head
  let r ← { r with nest := r.nest.countItem }.enter head
  .ok (head, r)

end CborReader

end Km43.Cbor
