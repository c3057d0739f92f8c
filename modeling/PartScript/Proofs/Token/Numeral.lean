import PartScript.Proofs.Grammar.Recognition
import PartScript.Proofs.Token.Digits
import PartScript.Proofs.Token.Lexeme

/-!
When a text cannot be cut into tokens for no fault of its own. Whatever is wrong with a text has a place in
it. The one thing that has none is a whole number that is written with too many digits to be converted: it is
not too large, because nearly all of them are leading zeros.
-/

namespace PartScript

namespace Lexer

open Text

/-- Somewhere in the text stands a run of more digits than are converted. Without its leading zeros it is no
longer than the largest float, and the fault tells the length of the run. -/
inductive LongNumeral (limit : Option Nat) (text : List Char) : Fault → Prop
  | mk {before digits after : List Char} {most : Nat} (htext : text = before ++ (digits ++ after))
      (hdigits : ∀ c ∈ digits, isDigit c = true) (hafter : Clear isDigit after)
      (hlimit : limit = some most) (hlong : most < digits.length)
      (hzeros : (digits.dropWhile (· == '0')).length ≤ mostDigits) :
      LongNumeral limit text (.longNumeral most digits.length)

/-- Something is wrong in the text, or a numeral in it is too long. -/
def Mishap.Explained (limit : Option Nat) (text : List Char) : Mishap → Prop
  | .wrong _ _ _ => True
  | .fault f => LongNumeral limit text f

/-- The same for the failure of a text. -/
def Explained (limit : Option Nat) (text : List Char) : Failure → Prop
  | .diagnostic _ => True
  | .fault f => LongNumeral limit text f

section

variable {limit : Option Nat}

theorem LongNumeral.extend {text text' : List Char} {f : Fault} (h : LongNumeral limit text f)
    (hsuffix : text <:+ text') : LongNumeral limit text' f := by
  obtain ⟨front, rfl⟩ := hsuffix
  cases h with
  | @mk before digits after most htext hdigits hafter hlimit hlong hzeros =>
      have hwhole : front ++ text = (front ++ before) ++ (digits ++ after) := by
        rw [htext, List.append_assoc]
      exact .mk hwhole hdigits hafter hlimit hlong hzeros

/-! ### Scanners -/

/-- A mishap is explained by the text, and what is left ends the text. -/
abbrev Scans {α : Type} (limit : Option Nat) (text : List Char) (left : α → List Char)
    (x : Except Mishap α) : Prop :=
  Settles (Mishap.Explained limit text) (fun a => left a <:+ text) x

theorem Scans.extend {α : Type} {text text' : List Char} {left : α → List Char} {x : Except Mishap α}
    (h : Scans limit text left x) (hsuffix : text <:+ text') : Scans limit text' left x := by
  refine h.mono (fun mishap hmishap => ?_) fun a ha => ha.trans hsuffix
  cases mishap with
  | wrong => trivial
  | fault f => exact LongNumeral.extend hmishap hsuffix

theorem suffix_cons_cons (c d : Char) (text : List Char) : text <:+ c :: d :: text := ⟨[c, d], rfl⟩

/-- Blanks and comments are skipped. -/
theorem skip_scans (gap : Gap) (text : List Char) : Scans limit text id (skip gap text) := by
  fun_induction skip gap text with
  | case1 => trivial
  | case2 => exact List.suffix_refl _
  | case8 => exact List.suffix_refl _
  | case3 c rest _ ih | case4 c rest _ ih | case7 c rest _ _ _ ih | case11 _ _ c rest _ _ ih =>
      exact ih.extend (List.suffix_cons c rest)
  | case5 rest ih | case6 rest ih | case9 _ _ rest ih | case10 _ _ rest ih =>
      exact ih.extend (suffix_cons_cons _ _ rest)

theorem scanString_scans (opening : List Char) (quote : Char) (text : List Char) :
    Scans limit text Prod.snd (scanString opening quote text) := by
  fun_induction scanString opening quote text with
  | case1 | case3 | case4 | case5 => trivial
  | case2 c rest => exact List.suffix_cons c rest
  | case6 c _ _ _ d more e _ ih => exact (ih.extend (suffix_cons_cons c d more)).bind fun _ h => h
  | case7 c rest _ _ _ ih => exact (ih.extend (List.suffix_cons c rest)).bind fun _ h => h

theorem wholeValue_settles {text digits after : List Char} (htext : text = digits ++ after)
    (hdigits : ∀ c ∈ digits, isDigit c = true) (hafter : Clear isDigit after) :
    Settles (LongNumeral limit text) (fun _ => True) (wholeValue limit digits) := by
  unfold wholeValue
  split
  · trivial
  · rename_i hzeros
    split
    · rename_i most hmost
      obtain ⟨hlimit, hlong⟩ := Option.filter_eq_some_iff.1 hmost
      have hwhole : text = [] ++ (digits ++ after) := htext
      exact .mk hwhole hdigits hafter hlimit (of_decide_eq_true hlong) (Nat.le_of_not_lt hzeros)
    · trivial

/-- The value of the text of a number is refused only if the number is whole. -/
theorem numberValue_settles {isWhole : Bool} {text read digits after : List Char}
    (hread : isWhole = true → read = digits) (htext : text = digits ++ after)
    (hdigits : ∀ c ∈ digits, isDigit c = true) (hafter : Clear isDigit after) :
    Settles (LongNumeral limit text) (fun _ => True) (numberValue limit isWhole read) := by
  unfold numberValue
  split
  · rename_i hwhole
    rw [hread hwhole]
    exact (wholeValue_settles htext hdigits hafter).bind fun _ _ => trivial
  · trivial

theorem scanNumber_scans (text : List Char) : Scans limit text Prod.snd (scanNumber limit text) := by
  obtain ⟨ds, hds, hall, hclear⟩ := exists_run isDigit text
  obtain ⟨frac, hwhole, -, hfrac⟩ := exists_fraction (skipDigits text)
  unfold scanNumber
  dsimp only
  split
  · trivial
  · rename_i exponent hexponent
    obtain ⟨exp, hmantissa, -, hexp⟩ := exists_exponent hexponent
    generalize hrest : exponent.getD ((skipFraction? (skipDigits text)).getD (skipDigits text)) = rest
      at hmantissa
    have htext : text = ds ++ (frac ++ exp) ++ rest := by
      rw [List.append_assoc, List.append_assoc, ← hmantissa, ← hwhole]
      exact hds
    split
    · trivial
    · -- The text of a whole number is the run of digits alone.
      have hvalue : Settles (LongNumeral limit text) (fun _ => True) (numberValue limit
          ((skipFraction? (skipDigits text)).isNone && exponent.isNone) (consumed text rest)) := by
        refine numberValue_settles (fun hnone => ?_) hds hall hclear
        rw [← hfrac, ← hexp, Bool.and_eq_true, decide_eq_true_iff, decide_eq_true_iff] at hnone
        conv => lhs; arg 1; rw [htext]
        rw [consumed_append, hnone.1, hnone.2, List.append_nil, List.append_nil]
      split
      · rename_i f hf
        rw [hf] at hvalue
        exact hvalue
      · trivial
      · exact ⟨_, htext.symm⟩

theorem scanSymbol_scans (c : Char) (rest : List Char) :
    Scans limit (c :: rest) Prod.snd (scanSymbol c rest) := by
  unfold scanSymbol
  split
  · exact (List.drop_suffix 1 rest).trans (List.suffix_cons c rest)
  · split
    · exact List.suffix_cons c rest
    · trivial

theorem scanToken_scans (text : List Char) : Scans limit text Prod.snd (scanToken limit text) := by
  cases text with
  | nil => exact List.suffix_refl _
  | cons c rest =>
      rw [scanToken]
      split
      · refine Settles.bind ((scanString_scans (c :: rest) c rest).extend (List.suffix_cons c rest)) ?_
        exact fun _ h => h
      split
      · exact scanNumber_scans _
      split
      · exact List.dropWhile_suffix _
      · exact scanSymbol_scans c rest

end

/-! ### Texts -/

theorem Reading.failure_explained (r : Reading) (p : Position) {text text' : List Char}
    (hsuffix : text <:+ text') (mishap : Mishap) (h : mishap.Explained r.limit text) :
    Explained r.limit text' (r.failure p text mishap) := by
  cases mishap with
  | wrong cause start stop => trivial
  | fault f => exact LongNumeral.extend h hsuffix

/-- A text is cut into tokens, or something is wrong in it, or a numeral in it is too long. -/
theorem Reading.tokens_settles (r : Reading) (fuel : Nat) (p : Position) (text : List Char) :
    Settles (Explained r.limit text) (fun _ => True) (r.tokens fuel p text) := by
  induction fuel generalizing p text with
  | zero => trivial
  | succ fuel ih =>
      have hskip : Settles (Explained r.limit text) (· <:+ text)
          ((skip .between text).mapError (r.failure p text)) :=
        (skip_scans .between text).mapError (r.failure_explained p (List.suffix_refl _))
      refine hskip.bind fun here hhere => ?_
      cases here with
      | nil => trivial
      | cons c rest =>
          refine ((scanToken_scans (c :: rest)).mapError (r.failure_explained _ hhere)).bind
            fun scanned hleft => ?_
          refine ((ih _ scanned.2).mono (fun failure h => ?_) fun _ h => h).bind fun _ _ => trivial
          cases failure with
          | diagnostic d => trivial
          | fault f => exact LongNumeral.extend h (hleft.trans hhere)

/-! ### Long numerals -/

theorem wholeValue_longNumeral {most : Nat} {digits : List Char} (hlong : most < digits.length)
    (hzeros : (digits.dropWhile (· == '0')).length ≤ mostDigits) :
    wholeValue (some most) digits = .error (.longNumeral most digits.length) := by
  simp [wholeValue, Nat.not_lt.2 hzeros, Option.filter, hlong]

theorem scanNumber_longNumeral {most : Nat} {digits : List Char}
    (hdigits : ∀ c ∈ digits, isDigit c = true) (hlong : most < digits.length)
    (hzeros : (digits.dropWhile (· == '0')).length ≤ mostDigits) :
    scanNumber (some most) digits = .error (.fault (.longNumeral most digits.length)) := by
  rw [scanNumber_digits (some most) hdigits, wholeValue_longNumeral hlong hzeros]

end Lexer

/-- What has no place in a source text and keeps it from being read is a numeral that is too long. -/
theorem tokenize_fault {source : String} {file : Option String} {f : Fault}
    (h : tokenize source file = .error (.fault f)) :
    Lexer.LongNumeral (some Number.maxDigits) source.toList f := by
  have hsettles := Lexer.Reading.tokens_settles ⟨file, Text.linesOf source, some Number.maxDigits⟩
    (source.toList.length + 1) .first source.toList
  have hfault : Lexer.Reading.tokens ⟨file, Text.linesOf source, some Number.maxDigits⟩
      (source.toList.length + 1) .first source.toList = .error (.fault f) := h
  rw [hfault] at hsettles
  exact hsettles

/-- The same for its tree. -/
theorem parse_fault {source : String} {file : Option String} {f : Fault}
    (h : parse source file = .error (.fault f)) :
    Lexer.LongNumeral (some Number.maxDigits) source.toList f := by
  cases htokens : tokenize source file with
  | error failure =>
      rw [parse, htokens] at h
      cases h
      exact tokenize_fault htokens
  | ok tokens =>
      obtain ⟨ts, finish, rfl⟩ := tokenize_eq_ok htokens
      rw [parse, htokens, ok_bind, parseTokens, List.getLast?_concat] at h
      -- The parser has a place for everything that it finds wrong.
      dsimp only at h
      generalize Parser.script finish _ = read at h
      cases read <;> cases h

/-- A text of digits alone is such a numeral, and it is not read. -/
theorem parse_longNumeral {digits : List Char} (hdigits : ∀ c ∈ digits, Text.isDigit c = true)
    (hlong : Number.maxDigits < digits.length)
    (hzeros : (digits.dropWhile (· == '0')).length ≤ Lexer.mostDigits) (file : Option String) :
    parse (String.ofList digits) file = .error (.fault (.longNumeral Number.maxDigits digits.length)) := by
  have hne : digits ≠ [] := List.length_pos_iff.1 (Nat.zero_lt_of_lt hlong)
  have hscan := Lexer.scanNumber_longNumeral hdigits hlong hzeros
  rw [← String.toList_ofList (l := digits)] at hne hdigits hscan
  rw [parse, tokenize, tokenizeWith_of_scanNumber_eq_error hne hdigits hscan file, String.toList_ofList]
  rfl

end PartScript
