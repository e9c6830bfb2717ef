/-
# Addresses in text

A client writes the address of a server as `host:port` (`MakeAddress` of `client/rpc.cpp`),
and the runtime of its node reads it back (`ParseAddress` of
`server/runtime/net_transport.hpp`).  The reader cuts at the first colon, so a colon in the
host name is taken for the one that the writer put.
-/
import WhirlMatrix.Strings
import WhirlMatrix.Network.Packet
import Mathlib.Algebra.Group.Int.Defs
import Mathlib.Data.List.TakeWhile

namespace Whirl.Net

open StdString Separators

/-! ## Numbers in text -/

/-- `isspace`. -/
def isSpace (c : Char) : Bool := c == ' ' || ('\t' ≤ c && c ≤ '\r')

/-- The value of the digits up to the first other character, with a sign. -/
def readDigits (negative : Bool) (text : List Char) : ℤ :=
  let value : ℤ := Nat.ofDigitChars 10 (text.takeWhile Char.isDigit) 0
  if negative then -value else value

/-- The number that `std::atoi` reads: spaces, a sign, and digits. -/
def readNumber (text : List Char) : ℤ :=
  match text.dropWhile isSpace with
  | '-' :: rest => readDigits true rest
  | '+' :: rest => readDigits false rest
  | rest => readDigits false rest

/-- `std::atoi`; undefined for a number that is no `int`. -/
def atoi (str : String) : Outcome ℤ :=
  let value := readNumber str.toList
  if -2 ^ 31 ≤ value ∧ value < 2 ^ 31 then .ok value else .error .undefined

/-! ## The reader and the writer -/

namespace NetTransport

/-- `ParsePort`; the `int` is converted to `uint16_t`. -/
def parsePort (portStr : String) : Outcome Port := do
  let value ← atoi portStr
  return UInt16.ofInt value

/-- `ParseAddress`; without a colon, `pos` is `npos` and `pos + 1` is zero. -/
def parseAddress (address : String) : Outcome Address :=
  match find address ':' with
  | some pos => do
    let lhs ← substr address 0 pos
    let rhs ← substr address (pos + 1) address.length
    let port ← parsePort rhs
    return ⟨lhs, port⟩
  | none => do
    let port ← parsePort address
    return ⟨address, port⟩

end NetTransport

/-- `MakeAddress`. -/
def makeAddress (host : HostName) (port : Port) : String := host ++ ":" ++ toString port.toNat

/-! ## What they do -/

open NetTransport

/-- A digit is no space. -/
theorem isSpace_of_isDigit {c : Char} (h : c.isDigit = true) : isSpace c = false := by
  obtain ⟨hle, -⟩ := Char.isDigit_iff_toNat.mp h
  rw [isSpace, Bool.or_eq_false_iff, beq_eq_false_iff_ne, Bool.and_eq_false_iff]
  refine ⟨?_, Or.inr ?_⟩
  · rintro rfl
    exact absurd h (by decide)
  · rw [decide_eq_false_iff_not]
    intro hcr
    have hcr : c.toNat ≤ '\r'.toNat := hcr
    exact absurd (Nat.le_trans hle hcr) (by decide)

/-- Digits are read as their value. -/
theorem readNumber_of_digits {text : List Char} (h : ∀ c ∈ text, c.isDigit = true) :
    readNumber text = Nat.ofDigitChars 10 text 0 := by
  have hvalue : readDigits false text = Nat.ofDigitChars 10 text 0 := by
    rw [readDigits, List.takeWhile_eq_self_iff.mpr h]
    rfl
  cases text with
  | nil => rfl
  | cons c rest =>
    have hc := h c (List.mem_cons_self ..)
    rw [readNumber, List.dropWhile_cons_of_neg (by rw [isSpace_of_isDigit hc]; decide)]
    split
    · -- the first digit is no sign
      rename_i rest' heq
      obtain ⟨rfl, -⟩ := List.cons.inj heq
      exact absurd hc (by decide)
    · rename_i rest' heq
      obtain ⟨rfl, -⟩ := List.cons.inj heq
      exact absurd hc (by decide)
    · exact hvalue

/-- A port is read as it was written. -/
theorem NetTransport.parsePort_toString (port : Port) : parsePort (toString port.toNat) = .ok port := by
  have hread : readNumber (toString port.toNat).toList = port.toNat := by
    rw [Nat.toString_eq_repr, Nat.toList_repr, readNumber_of_digits fun c hc =>
      Nat.isDigit_of_mem_toDigits (by decide) (by decide) hc, Nat.ofDigitChars_ten_toDigits]
  have hlt : port.toNat < 2 ^ 16 := port.toNat_lt
  have hatoi : atoi (toString port.toNat) = .ok (port.toNat : ℤ) := by
    rw [atoi, hread]
    exact if_pos (by omega)
  rw [parsePort, hatoi, Outcome.ok_bind, Outcome.pure_eq_ok]
  show UInt16.ofNat _ = port
  have hmod : ((port.toNat : ℤ) % 2 ^ 16).toNat = port.toNat := by omega
  rw [hmod, UInt16.ofNat_toNat]

variable {address : String} {before after : List Char}

/-- An address is cut at its first colon. -/
theorem NetTransport.parseAddress_eq (h : address.toList = before ++ ':' :: after)
    (hbefore : ':' ∉ before) :
    parseAddress address = do
      let port ← parsePort (String.ofList after)
      return ⟨String.ofList before, port⟩ := by
  have hfirst : find address ':' = some before.length := by
    rw [find, h]
    exact idxOf?_append_cons hbefore after
  rw [parseAddress, hfirst]
  show (substr address 0 before.length >>= _) = _
  rw [substr_before h, Outcome.ok_bind, substr_after h]
  rfl

theorem toList_makeAddress (host : HostName) (port : Port) :
    (makeAddress host port).toList = host.toList ++ ':' :: (toString port.toNat).toList := by
  rw [makeAddress, String.toList_append, String.toList_append]
  simp

/-- **Addresses round-trip exactly for hosts without a colon.**  A host with a colon is
never read back as itself, whatever becomes of the port. -/
theorem parseAddress_makeAddress_iff (host : HostName) (port : Port) :
    (parseAddress (makeAddress host port) = .ok ⟨host, port⟩ ↔ ':' ∉ host.toList) ∧
      (':' ∈ host.toList → ∀ parsed, parseAddress (makeAddress host port) = .ok parsed →
        parsed.host ≠ host) := by
  have hcolon : ':' ∈ host.toList → ∀ parsed, parseAddress (makeAddress host port) = .ok parsed →
      parsed.host ≠ host := by
    intro hmem parsed hparsed heq
    -- the reader cuts in the host
    obtain ⟨before, rest, hhost, hbefore⟩ := List.eq_append_cons_of_mem hmem
    have haddress : (makeAddress host port).toList
        = before ++ ':' :: (rest ++ ':' :: (toString port.toNat).toList) := by
      rw [toList_makeAddress, hhost, List.append_assoc, List.cons_append]
    rw [parseAddress_eq haddress hbefore] at hparsed
    obtain ⟨port', -, hparsed⟩ := Outcome.bind_eq_ok.mp hparsed
    obtain rfl := Outcome.pure_eq_ok.mp hparsed
    rw [← heq, String.toList_ofList] at hhost
    have hlength := congrArg List.length hhost
    rw [List.length_append, List.length_cons] at hlength
    omega
  refine ⟨⟨?_, ?_⟩, hcolon⟩
  · intro hparsed hmem
    exact hcolon hmem _ hparsed rfl
  · intro hnot
    rw [parseAddress_eq (toList_makeAddress host port) hnot, String.ofList_toList,
      String.ofList_toList, parsePort_toString]
    rfl

end Whirl.Net
