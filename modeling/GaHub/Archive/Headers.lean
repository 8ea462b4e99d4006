import GaHub.Archive

namespace GaHub.Archive

-- The bytes of an archive file.
abbrev Bytes := List Nat

inductive Label where
  | prompt
  | response
  deriving DecidableEq

def Label.line : Label → Text
  | .prompt => text "=== Prompt ==="
  | .response => text "=== Response ==="

-- A match of a header expression: where it starts and stops, and its two groups.
structure Header where
  start : Nat
  stop : Nat
  label : Label
  time : Option Text
  deriving DecidableEq

-- What `\s` and `\d` stand for in a text and in bytes.
structure Classes where
  space : Nat → Bool
  digit : Nat → Bool

def asciiDigit (c : Nat) : Bool := decide (48 ≤ c ∧ c ≤ 57)

def decimalZeros : List Nat :=
  [0x30, 0x660, 0x6F0, 0x7C0, 0x966, 0x9E6, 0xA66, 0xAE6, 0xB66, 0xBE6, 0xC66, 0xCE6, 0xD66, 0xDE6, 0xE50, 0xED0, 0xF20,
    0x1040, 0x1090, 0x17E0, 0x1810, 0x1946, 0x19D0, 0x1A80, 0x1A90, 0x1B50, 0x1BB0, 0x1C40, 0x1C50, 0xA620, 0xA8D0,
    0xA900, 0xA9D0, 0xA9F0, 0xAA50, 0xABF0, 0xFF10, 0x104A0, 0x10D30, 0x11066, 0x110F0, 0x11136, 0x111D0, 0x112F0,
    0x11450, 0x114D0, 0x11650, 0x116C0, 0x11730, 0x118E0, 0x11950, 0x11C50, 0x11D50, 0x11DA0, 0x11F50, 0x16A60, 0x16AC0,
    0x16B50, 0x1D7CE, 0x1D7D8, 0x1D7E2, 0x1D7EC, 0x1D7F6, 0x1E140, 0x1E2F0, 0x1E4F0, 0x1E950, 0x1FBF0]

def decimalDigit (c : Nat) : Bool := decimalZeros.any fun zero => decide (zero ≤ c ∧ c < zero + 10)

def textClasses : Classes := ⟨isSpace, decimalDigit⟩

def byteClasses : Classes := ⟨fun c => decide (9 ≤ c ∧ c ≤ 13 ∨ c = 32), asciiDigit⟩

-- `\d{4}-\d{2}-\d{2} \d{2}:\d{2}:\d{2}`, with `none` for a digit
def datePattern : List (Option Nat) :=
  (text "0000-00-00 00:00:00").map fun c => if c = 48 then none else some c

def fitsPattern (k : Classes) : List (Option Nat) → Text → Bool
  | [], _ => true
  | _ :: _, [] => false
  | none :: pattern, c :: rest => k.digit c && fitsPattern k pattern rest
  | some d :: pattern, c :: rest => c == d && fitsPattern k pattern rest

-- `\s+(date)`: the date and how much is matched. No white space starts a date, so the white space is taken whole.
def dated (k : Classes) (rest : Text) : Option (Text × Nat) :=
  let blanks := rest.takeWhile k.space
  let after := rest.drop blanks.length
  if blanks ≠ [] ∧ fitsPattern k datePattern after = true then
    some (after.take datePattern.length, blanks.length + datePattern.length)
  else none

def labelAt (rest : Text) : Option Label :=
  if Label.prompt.line.isPrefixOf rest then some .prompt
  else if Label.response.line.isPrefixOf rest then some .response
  else none

-- `_NATIVE_HEADER_RE`, at the start of a line: the groups and how much is matched.
def textHeader (rest : Text) : Option (Label × Option Text × Nat) :=
  (labelAt rest).map fun label =>
    let after := rest.drop label.line.length
    let dated := dated textClasses after
    let n := (dated.map Prod.snd).getD 0
    (label, dated.map Prod.fst, label.line.length + (n + ((after.drop n).takeWhile (· ≠ 10)).length))

-- `[^\r\n]*(?:\r?\n|\r)`
def lineEnd (rest : Text) : Option Nat :=
  let line := rest.takeWhile fun c => c ≠ 10 && c ≠ 13
  match rest.drop line.length with
  | 13 :: 10 :: _ => some (line.length + 2)
  | _ :: _ => some (line.length + 1)
  | [] => none

-- `_NATIVE_HEADER_BYTES_RE`: where the line does not end after the date, the date is not matched.
def byteHeader (rest : Bytes) : Option (Label × Option Text × Nat) :=
  (labelAt rest).bind fun label =>
    let after := rest.drop label.line.length
    let withDate := (dated byteClasses after).bind fun date =>
      (lineEnd (after.drop date.2)).map fun n => (label, some date.1, label.line.length + (date.2 + n))
    withDate.or ((lineEnd after).map fun n => (label, none, label.line.length + n))

-- `finditer`: `skip` is what remains of the last match, `fresh` says that a line starts here.
def scan (header : Text → Option (Label × Option Text × Nat)) : Nat → Nat → Bool → Text → List Header
  | _, _, _, [] => []
  | at', skip + 1, _, c :: rest => scan header (at' + 1) skip (c == 10) rest
  | at', 0, false, c :: rest => scan header (at' + 1) 0 (c == 10) rest
  | at', 0, true, c :: rest =>
      match header (c :: rest) with
      | some (label, time, n) => ⟨at', at' + n, label, time⟩ :: scan header (at' + 1) (n - 1) (c == 10) rest
      | none => scan header (at' + 1) 0 (c == 10) rest

def textHeaders (content : Text) : List Header := scan textHeader 0 0 true content

def byteHeaders (data : Bytes) : List Header := scan byteHeader 0 0 true data

-- A completed round: its prompt, its response, and where its body ends.
structure Round where
  prompt : Header
  response : Header
  stop : Nat
  deriving DecidableEq

-- The loop both readers share: a response completes the prompt that is pending.
def pairUp (size : Nat) : Option Header → List Header → List Round
  | _, [] => []
  | pending, header :: rest =>
      let bodyEnd := (rest.head?.map Header.start).getD size
      match header.label, pending with
      | .prompt, _ => pairUp size (some header) rest
      | .response, some prompt => ⟨prompt, header, bodyEnd⟩ :: pairUp size none rest
      | .response, none => pairUp size none rest

-- `_completed_rounds`, by the places of the rounds in the text
def completedRounds (content : Text) : List Round := pairUp content.length none (textHeaders content)

def bytePairs (data : Bytes) : List Round := pairUp data.length none (byteHeaders data)

-- One code point at the head of some bytes and how many it takes, with a replacement for what is no UTF-8.
def decodeOne : Bytes → Nat × Nat
  | [] => (0xFFFD, 1)
  | a :: rest =>
      let tail (i low high : Nat) : Option Nat := rest[i]?.filter fun b => decide (low ≤ b ∧ b ≤ high)
      if a < 0x80 then (a, 1)
      else if 0xC2 ≤ a ∧ a ≤ 0xDF then
        match tail 0 0x80 0xBF with
        | some b => ((a - 0xC0) * 64 + (b - 0x80), 2)
        | none => (0xFFFD, 1)
      else if 0xE0 ≤ a ∧ a ≤ 0xEF then
        match tail 0 (if a = 0xE0 then 0xA0 else 0x80) (if a = 0xED then 0x9F else 0xBF), tail 1 0x80 0xBF with
        | some b, some c => ((a - 0xE0) * 4096 + (b - 0x80) * 64 + (c - 0x80), 3)
        | some _, none => (0xFFFD, 2)
        | none, _ => (0xFFFD, 1)
      else if 0xF0 ≤ a ∧ a ≤ 0xF4 then
        match tail 0 (if a = 0xF0 then 0x90 else 0x80) (if a = 0xF4 then 0x8F else 0xBF), tail 1 0x80 0xBF, tail 2 0x80 0xBF with
        | some b, some c, some d => ((a - 0xF0) * 262144 + (b - 0x80) * 4096 + (c - 0x80) * 64 + (d - 0x80), 4)
        | some _, some _, none => (0xFFFD, 3)
        | some _, none, _ => (0xFFFD, 2)
        | none, _, _ => (0xFFFD, 1)
      else (0xFFFD, 1)

-- `decode("utf-8", errors="replace")`, each code point with the number of its bytes.
def pieces : Nat → Bytes → List (Nat × Nat)
  | _, [] => []
  | skip + 1, _ :: rest => pieces skip rest
  | 0, b :: rest => decodeOne (b :: rest) :: pieces ((decodeOne (b :: rest)).2 - 1) rest

def decode (data : Bytes) : Text := (pieces 0 data).map Prod.fst

-- Where the code point of a place is in the bytes.
def byteOffset (data : Bytes) (i : Nat) : Nat := (((pieces 0 data).take i).map Prod.snd).sum

end GaHub.Archive
