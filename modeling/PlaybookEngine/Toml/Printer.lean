import PlaybookEngine.Number.Shortest
import PlaybookEngine.Toml.Basic

namespace PlaybookEngine.Toml

namespace Printer

/-- The longest run of a character. -/
def longestRun (quote : Char) (cs : List Char) : Nat :=
  (cs.foldl (fun (run, longest) c =>
    if c = quote then (run + 1, max longest (run + 1)) else (0, longest)) (0, 0)).2

/-- A control character, except the tab and the line feed. -/
def needsCode (c : Char) : Bool :=
  c ≠ '\t' && c ≠ '\n' && (c.toNat ≤ 0x1f || c.toNat = 0x7f)

def hex4 (n : Nat) : List Char :=
  let ds := (Nat.toDigits 16 n).map Char.toUpper
  List.replicate (4 - ds.length) '0' ++ ds

/-- A character between double quotes; line feeds stand as they are in a text of many lines. -/
def escaped (multi : Bool) (c : Char) : List Char :=
  match c with
  | '\x08' => ['\\', 'b']
  | '\t' => ['\\', 't']
  | '\n' => if multi then ['\n'] else ['\\', 'n']
  | '\x0c' => ['\\', 'f']
  | '\r' => ['\\', 'r']
  | '\\' => ['\\', '\\']
  | c => if c.toNat ≤ 0x1f || c.toNat = 0x7f then '\\' :: 'u' :: hex4 c.toNat else [c]

/-- Escapes a text between double quotes; `allowed` quotes in a row need no escape, of which `run`
have been written. -/
def escapedText (multi : Bool) (allowed : Nat) : (run : Nat) → List Char → List Char
  | _, [] => []
  | run, '"' :: cs =>
    if run < allowed then '"' :: escapedText multi allowed (run + 1) cs
    else '\\' :: '"' :: escapedText multi allowed 0 cs
  | _, c :: cs => escaped multi c ++ escapedText multi allowed 0 cs

def basic (cs : List Char) : List Char := '"' :: escapedText false 0 0 cs ++ ['"']

def literal (cs : List Char) : List Char := '\'' :: cs ++ ['\'']

/-- A text of many lines starts on a line of its own. -/
def opening (cs : List Char) : List Char := if cs.contains '\n' then ['\n'] else []

def multiBasic (cs : List Char) : List Char :=
  let quotes := ['"', '"', '"']
  quotes ++ opening cs ++ escapedText true 2 0 cs ++ quotes

def multiLiteral (cs : List Char) : List Char :=
  let quotes := ['\'', '\'', '\'']
  quotes ++ opening cs ++ cs ++ quotes

def string (s : String) : String :=
  let cs := s.toList
  let coded := cs.any needsCode
  let slashed := cs.contains '\\'
  let double := longestRun '"' cs
  let single := longestRun '\'' cs
  let multi := cs.contains '\n'
  String.ofList <|
    if !coded && !slashed && double = 0 && !multi then basic cs
    else if !coded && single = 0 && !multi then literal cs
    else if !coded && !slashed && double ≤ 2 then multiBasic cs
    else if !coded && single ≤ 2 then multiLiteral cs
    else if multi then multiBasic cs
    else basic cs

/-- Positional, always with a point. -/
def float : Binary64 → String
  | .nan => "nan"
  | .inf neg => if neg then "-inf" else "inf"
  | .finite x =>
    let d := x.shortest
    let ds := Binary64.significantDigits d.coeff
    let whole : Int := if x.isZero then 1 else d.exp + (Nat.toDigits 10 d.coeff).length
    String.ofList ((if x.neg then ['-'] else []) ++ Binary64.positional ds whole)

end Printer

end PlaybookEngine.Toml
