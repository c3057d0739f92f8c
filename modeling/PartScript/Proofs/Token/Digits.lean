import PartScript.Proofs.Number.Spelling
import PartScript.Proofs.Text.Lines
import PartScript.Proofs.Token.Piece

/-!
Texts that are nothing but digits. Such a text is read as the whole number that it denotes, however many
zeros it starts with, as long as a float can hold the number. Whether one can is asked twice, first by the
digits that are left without the leading zeros and then by the value; the first question only saves the
conversion of texts that the second one would refuse.
-/

namespace PartScript

open Text (isDigit natOfDigits)

/-- The number that a text of decimal digits denotes. Each digit counts ten times as much as the one behind
it. -/
def denoted (digits : String) : Nat :=
  Nat.ofDigits 10 (digits.toList.reverse.map fun c => c.toNat - '0'.toNat)

theorem denoted_eq (digits : String) : denoted digits = natOfDigits digits.toList := by
  rw [denoted]
  induction digits.toList using List.reverseRecOn with
  | nil => rfl
  | append_singleton cs c ih =>
      rw [List.reverse_append, List.reverse_singleton, List.singleton_append, List.map_cons,
        Nat.ofDigits_cons, ih, natOfDigits_append]
      simp [natOfDigits]
      omega

theorem denoted_repr (n : Nat) : denoted n.repr = n := by
  rw [denoted_eq, natOfDigits_repr]

theorem greatest_eq : Dyadic.greatest = 2 ^ 1024 - 2 ^ 971 := by
  have hpower (k : Nat) : powTwo k = 2 ^ k := rfl
  rw [Dyadic.greatest, hpower, hpower]

/-! ### The two questions -/

theorem natOfDigits_dropWhile (digits : List Char) :
    natOfDigits (digits.dropWhile (· == '0')) = natOfDigits digits := by
  have hzeros : digits.takeWhile (· == '0') =
      List.replicate (digits.takeWhile (· == '0')).length '0' :=
    List.eq_replicate_iff.2 ⟨rfl, fun c hc => by simpa using List.all_eq_true.1 List.all_takeWhile c hc⟩
  conv => rhs; rw [← List.takeWhile_append_dropWhile (p := (· == '0')) (l := digits), hzeros]
  rw [natOfDigits_append, natOfDigits_zeros, Nat.zero_mul, Nat.zero_add]

/-- Every digit behind the first one counts, unless the first one is a zero. -/
theorem powTen_le_natOfDigits {c : Char} (hc : isDigit c = true) (hzero : c ≠ '0') (cs : List Char) :
    powTen cs.length ≤ natOfDigits (c :: cs) := by
  have hfirst : 1 ≤ natOfDigits [c] := by
    have hle : '0'.toNat ≤ c.toNat := of_decide_eq_true (Bool.and_eq_true_iff.1 hc).1
    have hne : '0'.toNat ≠ c.toNat := fun heq => hzero (Char.toNat_inj.1 heq).symm
    simp only [natOfDigits, List.foldl_cons, List.foldl_nil]
    omega
  calc powTen cs.length
      = 1 * 10 ^ cs.length := (Nat.one_mul _).symm
    _ ≤ natOfDigits [c] * 10 ^ cs.length := Nat.mul_le_mul_right _ hfirst
    _ ≤ natOfDigits [c] * 10 ^ cs.length + natOfDigits cs := Nat.le_add_right _ _
    _ = natOfDigits (c :: cs) := (natOfDigits_append [c] cs).symm

/-- Without its leading zeros a text that has more digits than the largest float denotes a larger number. -/
theorem greatest_lt_natOfDigits {digits : List Char} (hdigits : ∀ c ∈ digits, isDigit c = true)
    (hlong : Lexer.mostDigits < (digits.dropWhile (· == '0')).length) :
    Dyadic.greatest < natOfDigits digits := by
  rw [← natOfDigits_dropWhile]
  have hhead := List.head?_dropWhile_not (· == '0') digits
  have hall : ∀ c ∈ digits.dropWhile (· == '0'), isDigit c = true :=
    fun c hc => hdigits c ((List.dropWhile_suffix _).subset hc)
  generalize digits.dropWhile (· == '0') = rest at hlong hhead hall
  obtain ⟨c, cs, rfl⟩ := List.exists_cons_of_length_pos (Nat.zero_lt_of_lt hlong)
  calc Dyadic.greatest
      < powTen Lexer.mostDigits := greatest_lt_powTen
    _ ≤ powTen cs.length := powTen_le (Nat.le_of_lt_succ hlong)
    _ ≤ natOfDigits (c :: cs) := powTen_le_natOfDigits (hall c (.head _)) (by simpa using hhead) cs

namespace Lexer

variable {limit : Option Nat} {digits : List Char}

/-- Where so many digits are converted, the two questions come down to the second one. -/
theorem wholeValue_eq (hdigits : ∀ c ∈ digits, isDigit c = true)
    (hlimit : ∀ most ∈ limit, digits.length ≤ most) :
    wholeValue limit digits =
      .ok (if natOfDigits digits ≤ Dyadic.greatest then some (natOfDigits digits) else none) := by
  have hconverted : limit.filter (· < digits.length) = none :=
    Option.filter_eq_none_iff.2 fun most hmost => by simpa using hlimit most hmost
  rw [wholeValue]
  split
  · next hlong => rw [if_neg (Nat.not_le.2 (greatest_lt_natOfDigits hdigits hlong))]
  · rw [hconverted]

/-! ### Reading -/

/-- A text of digits is scanned to its end. -/
theorem scanNumber_digits (limit : Option Nat) (hdigits : ∀ c ∈ digits, isDigit c = true) :
    scanNumber limit digits = match wholeValue limit digits with
      | .error f => .error (.fault f)
      | .ok none => .error (.wrong (.numberOutOfRange (String.ofList digits)) digits [])
      | .ok (some n) => .ok (.number (.int n), []) := by
  have hskip : skipDigits digits = [] := by
    simpa [skipDigits] using dropWhile_run hdigits (clear_nil isDigit)
  have hconsumed : consumed digits [] = digits := by
    simpa using consumed_append digits []
  have hnumber : numberValue limit true digits =
      (wholeValue limit digits).map (·.map fun n : Nat => .int n) := by
    rw [numberValue, if_pos rfl]
    cases wholeValue limit digits with
    | error f => rfl
    | ok n => cases n <;> rfl
  simp only [scanNumber, hskip, skipFraction?, skipExponent?, Option.getD_none, Option.isNone_none,
    Bool.and_true, hconsumed, hnumber, lexeme]
  cases wholeValue limit digits with
  | error f => rfl
  | ok n => cases n <;> rfl

/-- Nothing of a text of digits is skipped, and a number is scanned in it. -/
theorem scanToken_digits (limit : Option Nat) (hne : digits ≠ [])
    (hdigits : ∀ c ∈ digits, isDigit c = true) :
    skip .between digits = .ok digits ∧ scanToken limit digits = scanNumber limit digits := by
  obtain ⟨c, cs, rfl⟩ := List.exists_cons_of_ne_nil hne
  have hc := hdigits c List.mem_cons_self
  obtain ⟨hspace, hquote, hslash⟩ := excludes hc (by decide)
  exact ⟨skip_cons hspace fun heq => absurd heq hslash, by simp [scanToken, hquote, startsNumber, hc]⟩

/-- A token that cannot be scanned behind a gap is all that is told of the text. -/
theorem Reading.tokens_mishap {r : Reading} {fuel : Nat} {p : Position} (gap : List Char) {text : List Char}
    {mishap : Mishap} (hskip : skip .between (gap ++ text) = .ok text) (htext : text ≠ [])
    (hscan : scanToken r.limit text = .error mishap) :
    r.tokens (fuel + 1) p (gap ++ text) = .error (r.failure (p.after gap) text mishap) := by
  have hgap : consumed (gap ++ text) text = gap := consumed_append _ _
  obtain ⟨c, cs, rfl⟩ := List.exists_cons_of_ne_nil htext
  simp only [Reading.tokens, hskip, mapError_ok, ok_bind, hgap, hscan]
  rfl

theorem unbroken_of_digits (hdigits : ∀ c ∈ digits, isDigit c = true) : Text.Unbroken digits := by
  intro c hc
  have hdigit := hdigits c hc
  by_contra hbreak
  simp only [Text.isLineBreak, Bool.not_eq_false, Bool.or_eq_true, beq_iff_eq] at hbreak
  rcases hbreak with ((((((((rfl | rfl) | rfl) | rfl) | rfl) | rfl) | rfl) | rfl) | rfl) | rfl <;>
    exact absurd hdigit (by decide)

end Lexer

/-- The span of a source that is a single line. -/
def Span.line (source : String) (file : Option String) : Span :=
  ⟨.first, ⟨1, source.length + 1, source.length⟩, file⟩

theorem after_of_digits {digits : String} (hdigits : ∀ c ∈ digits.toList, isDigit c = true) :
    Position.first.after digits.toList = ⟨1, digits.length + 1, digits.length⟩ := by
  rw [Text.after_of_unbroken (Lexer.unbroken_of_digits hdigits), String.length_toList]
  simp [Position.first, Nat.add_comm]

/-- The line that is quoted is the text itself. -/
theorem lineAt_linesOf {line : String} (hne : line.toList ≠ []) (hline : Text.Unbroken line.toList) :
    Text.lineAt (Text.linesOf line) 1 = some line := by
  obtain ⟨c, cs, hcons⟩ := List.exists_cons_of_ne_nil hne
  have hwhole : line.toList.takeWhile (!Text.isLineBreak ·) = line.toList :=
    List.takeWhile_eq_self_iff.2 fun c hc => by simp [hline c hc]
  rw [Text.lineAt_succ, Text.linesOf, List.getElem?_map, ← List.head?_eq_getElem?, hcons, Text.head?_lines,
    ← hcons, hwhole, Option.map_some, String.ofList_toList]

section

variable {limit : Option Nat} {digits : String}

/-- A text of digits is one token if its number is scanned, and the end behind it. -/
theorem tokenizeWith_of_wholeValue_eq_some {n : Nat} (hne : digits.toList ≠ [])
    (hdigits : ∀ c ∈ digits.toList, isDigit c = true)
    (hvalue : Lexer.wholeValue limit digits.toList = .ok (some n)) (file : Option String) :
    tokenizeWith limit digits file = .ok [⟨.number (.int n), digits, .line digits file⟩,
      ⟨.finish, "", ⟨(Span.line digits file).stop, (Span.line digits file).stop, file⟩⟩] := by
  obtain ⟨hskip, hscan⟩ := Lexer.scanToken_digits limit hne hdigits
  rw [Lexer.scanNumber_digits limit hdigits, hvalue] at hscan
  rw [← List.append_nil digits.toList] at hskip hscan
  obtain ⟨fuel, hfuel⟩ := Nat.exists_eq_succ_of_ne_zero (List.length_pos_iff.2 hne).ne'
  have hend := Lexer.tokens_skipped .nil ⟨file, Text.linesOf digits, limit⟩ fuel
    (Position.first.after digits.toList)
  have htokens := Lexer.Reading.tokens_step (r := ⟨file, Text.linesOf digits, limit⟩) (p := .first) []
    hskip hne hscan hend
  rw [List.nil_append, List.append_nil, String.ofList_toList, Position.after_nil, Position.after_nil,
    after_of_digits hdigits] at htokens
  rw [tokenizeWith, hfuel]
  exact htokens

/-- A text of digits whose number cannot be scanned fails as a whole. -/
theorem tokenizeWith_of_scanNumber_eq_error {mishap : Lexer.Mishap} (hne : digits.toList ≠ [])
    (hdigits : ∀ c ∈ digits.toList, isDigit c = true)
    (hscan : Lexer.scanNumber limit digits.toList = .error mishap) (file : Option String) :
    tokenizeWith limit digits file =
      .error (Lexer.Reading.failure ⟨file, Text.linesOf digits, limit⟩ .first digits.toList mishap) := by
  obtain ⟨hskip, hnumber⟩ := Lexer.scanToken_digits limit hne hdigits
  have htokens : Lexer.Reading.tokens ⟨file, Text.linesOf digits, limit⟩ (digits.toList.length + 1) .first
      ([] ++ digits.toList) = _ := Lexer.Reading.tokens_mishap [] hskip hne (hnumber.trans hscan)
  exact htokens

/-- A text of digits is refused from its first character to its last if its number is out of range. -/
theorem tokenizeWith_of_wholeValue_eq_none (hne : digits.toList ≠ [])
    (hdigits : ∀ c ∈ digits.toList, isDigit c = true)
    (hvalue : Lexer.wholeValue limit digits.toList = .ok none) (file : Option String) :
    tokenizeWith limit digits file =
      .error (.diagnostic ⟨.numberOutOfRange digits, .line digits file, some digits⟩) := by
  have hscan := Lexer.scanNumber_digits limit hdigits
  rw [hvalue] at hscan
  have hwhole : Lexer.consumed digits.toList digits.toList = [] := Lexer.consumed_append [] _
  have hall : Lexer.consumed digits.toList [] = digits.toList := by
    simpa using Lexer.consumed_append digits.toList []
  have hline := lineAt_linesOf hne (Lexer.unbroken_of_digits hdigits)
  rw [tokenizeWith_of_scanNumber_eq_error hne hdigits hscan file, Lexer.Reading.failure, hwhole, hall,
    String.ofList_toList, Position.after_nil, after_of_digits hdigits, Diagnostic.quoting]
  exact congrArg (fun line => Except.error (Failure.diagnostic ⟨_, _, line⟩)) hline

/-- Where so many digits are converted, the number that a text of digits denotes decides what it is read as. -/
theorem tokenizeWith_digits (hne : digits.toList ≠ []) (hdigits : ∀ c ∈ digits.toList, isDigit c = true)
    (hlimit : ∀ most ∈ limit, digits.length ≤ most) (file : Option String) :
    tokenizeWith limit digits file =
      if denoted digits ≤ Dyadic.greatest then
        .ok [⟨.number (.int (denoted digits)), digits, .line digits file⟩,
          ⟨.finish, "", ⟨(Span.line digits file).stop, (Span.line digits file).stop, file⟩⟩]
      else .error (.diagnostic ⟨.numberOutOfRange digits, .line digits file, some digits⟩) := by
  have hvalue := Lexer.wholeValue_eq hdigits (String.length_toList ▸ hlimit)
  rw [← denoted_eq] at hvalue
  split
  · next hle =>
    rw [if_pos hle] at hvalue
    exact tokenizeWith_of_wholeValue_eq_some hne hdigits hvalue file
  · next hlt =>
    rw [if_neg hlt] at hvalue
    exact tokenizeWith_of_wholeValue_eq_none hne hdigits hvalue file

end

/-- A text of digits, of any length and with any number of leading zeros, is read as one number if the number
that it denotes is not above the largest float, and then it is exactly that number, with the whole text as its
lexeme. Otherwise the text is refused, from its first character to its last. A text with too many digits denotes
a number above the bound, so that the value is what decides. All this is without a limit on the digits that are
converted, and a limit makes no difference to texts that are within it. -/
theorem tokenize_digits {digits : String} (hne : digits ≠ "")
    (hdigits : ∀ c ∈ digits.toList, isDigit c = true) (file : Option String) :
    (denoted digits ≤ 2 ^ 1024 - 2 ^ 971 → tokenizeWith none digits file =
      .ok [⟨.number (.int (denoted digits)), digits, .line digits file⟩,
        ⟨.finish, "", ⟨(Span.line digits file).stop, (Span.line digits file).stop, file⟩⟩]) ∧
    (2 ^ 1024 - 2 ^ 971 < denoted digits → tokenizeWith none digits file =
      .error (.diagnostic ⟨.numberOutOfRange digits, .line digits file, some digits⟩) ∧
        (Cause.numberOutOfRange digits).code = "E005") ∧
    (Lexer.mostDigits < (digits.toList.dropWhile (· == '0')).length →
      2 ^ 1024 - 2 ^ 971 < denoted digits) ∧
    Lexer.wholeValue none digits.toList =
      .ok (if denoted digits ≤ 2 ^ 1024 - 2 ^ 971 then some (denoted digits) else none) ∧
    ∀ most, digits.length ≤ most → tokenizeWith (some most) digits file = tokenizeWith none digits file := by
  have hne : digits.toList ≠ [] := fun hnil => hne (String.toList_eq_nil_iff.1 hnil)
  have hread (limit : Option Nat) (hlimit : ∀ most ∈ limit, digits.length ≤ most) :=
    tokenizeWith_digits hne hdigits hlimit file
  have hexact := hread none nofun
  rw [← greatest_eq]
  refine ⟨fun hle => ?_, fun hlt => ⟨?_, rfl⟩, fun hlong => ?_, ?_, fun most hmost => ?_⟩
  · rw [hexact, if_pos hle]
  · rw [hexact, if_neg (Nat.not_le.2 hlt)]
  · rw [denoted_eq]
    exact greatest_lt_natOfDigits hdigits hlong
  · rw [denoted_eq]
    exact Lexer.wholeValue_eq hdigits nofun
  · rw [hexact, hread (some most) fun _ hsome => Option.some.inj hsome ▸ hmost]

/-- The largest float is read, and the next whole number is not. -/
theorem tokenize_digits_greatest :
    (∃ place finish, tokenizeWith none Dyadic.greatest.repr none =
      .ok [⟨.number (.int Dyadic.greatest), Dyadic.greatest.repr, place⟩, ⟨.finish, "", finish⟩]) ∧
    ∃ place line, tokenizeWith none (Dyadic.greatest + 1).repr none =
      .error (.diagnostic ⟨.numberOutOfRange (Dyadic.greatest + 1).repr, place, line⟩) := by
  have hne (n : Nat) : n.repr ≠ "" := fun hempty => repr_ne_nil n (String.toList_eq_nil_iff.2 hempty)
  have hdigits (n : Nat) : ∀ c ∈ n.repr.toList, isDigit c = true := fun c hc => isDigit_of_mem_repr hc
  obtain ⟨hread, -⟩ := tokenize_digits (hne Dyadic.greatest) (hdigits _) none
  obtain ⟨-, hrefused, -⟩ := tokenize_digits (hne (Dyadic.greatest + 1)) (hdigits _) none
  rw [denoted_repr, ← greatest_eq] at hread hrefused
  exact ⟨⟨_, _, hread (Nat.le_refl _)⟩, _, _, (hrefused (Nat.lt_add_one _)).1⟩

end PartScript
