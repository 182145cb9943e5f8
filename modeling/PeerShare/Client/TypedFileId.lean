import Mathlib.Data.List.DropRight
import Mathlib.Data.Nat.Digits.Lemmas
import PeerShare.Client.CommandLine

/-!
# The file id behind `get`

The argument of `get` is cut to 511 bytes by `sscanf`, read by `strtoul` and cast to
32 bits.  `strtoul` takes a sign and saturates at 64 bits, the cast drops the high
half, and neither is looked at again.  So a line that is not a request for a file id
may still be sent to the server as one: where the number has a sign, where it does not
fit 32 bits, and where the argument is longer than the buffer.
-/

namespace PeerShare
namespace Client

open Foundation Wire SelectiveRepeat

/-! ## What a line says -/

/-- A typed line without its newline. -/
def typedText (line : Bytes) : Bytes := (cString line).takeWhile (· ≠ newline)

/-- The value of a decimal numeral, most significant digit first. -/
def numeralValue (digits : Bytes) : Nat :=
  Nat.ofDigits 10 (digits.reverse.map fun digit => digit.toNat - 48)

def IsNumeral (text : Bytes) : Prop := text ≠ [] ∧ ∀ byte ∈ text, isDigit byte = true

instance (text : Bytes) : Decidable (IsNumeral text) :=
  decidable_of_iff (text ≠ [] ∧ text.all isDigit = true) (and_congr_right' List.all_eq_true)

/-- Optional whitespace, the word `get`, whitespace and a numeral of value `n`. -/
def TypedGet (line : Bytes) (n : Nat) : Prop :=
  ∃ lead gap digits : Bytes, typedText line = lead ++ (getWord ++ (gap ++ digits)) ∧
    (∀ byte ∈ lead, isSpace byte = true) ∧ gap ≠ [] ∧ (∀ byte ∈ gap, isSpace byte = true) ∧
    IsNumeral digits ∧ numeralValue digits = n

/-- The first word of the line is `get`. -/
def IsGetLine (line : Bytes) : Prop :=
  ((typedText line).dropWhile isSpace).takeWhile (fun byte => !isSpace byte) = getWord

/-- What stands behind the first word and the whitespace after it. -/
def typedArgument (line : Bytes) : Bytes :=
  (((typedText line).dropWhile isSpace).dropWhile fun byte => !isSpace byte).dropWhile isSpace

/-- A line calls `get` with `n` only if it asks for `n`, and every other line that
begins with `get` is answered with an error message only. -/
structure RequestsTypedId (line : Bytes) : Prop where
  typed : ∀ fileId : UInt32, parseCommand line = .get fileId → TypedGet line fileId.toNat
  rejected : IsGetLine line → (¬ ∃ n < 2 ^ 32, TypedGet line n) →
    ∀ host env client, handleCommand host env client line = ⟨client, true, []⟩

/-- The three kinds of lines that are taken for a request of another file id. -/
inductive Misread (line : Bytes) : Prop where
  | signed (hget : IsGetLine line) (sign : UInt8) (digits : Bytes)
      (hsign : sign = 43 ∨ sign = 45)
      (hcut : (typedArgument line).take 511 = sign :: digits) (hdigits : IsNumeral digits)
  | tooLarge (hget : IsGetLine line) (hdigits : IsNumeral ((typedArgument line).take 511))
      (hlarge : 2 ^ 32 ≤ numeralValue ((typedArgument line).take 511))
  | tooLong (hget : IsGetLine line) (hdigits : IsNumeral ((typedArgument line).take 511))
      (hlong : 511 < (typedArgument line).length) (byte : UInt8)
      (hmem : byte ∈ typedArgument line) (hnonzero : byte ≠ 48)

/-! ## Bytes -/

theorem isDigit_iff (byte : UInt8) : isDigit byte = true ↔ 48 ≤ byte.toNat ∧ byte.toNat ≤ 57 := by
  simp only [isDigit, Bool.and_eq_true, decide_eq_true_eq, UInt8.le_iff_toNat_le]
  rfl

theorem isSpace_iff (byte : UInt8) :
    isSpace byte = true ↔ byte.toNat = 32 ∨ 9 ≤ byte.toNat ∧ byte.toNat ≤ 13 := by
  simp only [isSpace, Bool.or_eq_true, Bool.and_eq_true, beq_iff_eq, decide_eq_true_eq,
    UInt8.le_iff_toNat_le, ← UInt8.toNat_inj]
  rfl

theorem not_isSpace_of_isDigit {byte : UInt8} (hdigit : isDigit byte = true) :
    isSpace byte = false := by
  rw [Bool.eq_false_iff]
  intro hspace
  rw [isSpace_iff] at hspace
  rw [isDigit_iff] at hdigit
  omega

theorem ne_sign_of_isDigit {byte : UInt8} (hdigit : isDigit byte = true) :
    byte ≠ 43 ∧ byte ≠ 45 := by
  rw [isDigit_iff] at hdigit
  constructor
  · rintro rfl
    exact absurd hdigit.1 (by decide)
  · rintro rfl
    exact absurd hdigit.1 (by decide)

theorem not_isSpace_of_sign {sign : UInt8} (hsign : sign = 43 ∨ sign = 45) :
    isSpace sign = false := by
  rcases hsign with rfl | rfl
  · rfl
  · rfl

/-! ## Numerals -/

theorem numeralValue_append (first second : Bytes) :
    numeralValue (first ++ second) =
      numeralValue first * 10 ^ second.length + numeralValue second := by
  simp only [numeralValue, List.reverse_append, List.map_append, Nat.ofDigits_append,
    List.length_map, List.length_reverse]
  ring

theorem numeralValue_cons (digit : UInt8) (rest : Bytes) :
    numeralValue (digit :: rest) =
      (digit.toNat - 48) * 10 ^ rest.length + numeralValue rest := by
  have hsplit := numeralValue_append [digit] rest
  simpa [numeralValue] using hsplit

/-- The loop of `strtoul` computes the value. -/
theorem foldl_eq_numeralValue (digits : Bytes) (start : Nat) :
    digits.foldl (fun value digit => value * 10 + (digit.toNat - 48)) start =
      start * 10 ^ digits.length + numeralValue digits := by
  induction digits generalizing start with
  | nil => simp [numeralValue]
  | cons digit rest ih =>
      rw [List.foldl_cons, ih, numeralValue_cons, List.length_cons, pow_succ]
      ring

theorem numeralValue_take_le (digits : Bytes) (count : Nat) :
    numeralValue (digits.take count) ≤ numeralValue digits := by
  conv_rhs => rw [← List.take_append_drop count digits]
  rw [numeralValue_append]
  exact (Nat.le_mul_of_pos_right _ (by positivity)).trans (Nat.le_add_right _ _)

/-- Only zeros have the value zero. -/
theorem eq_zeros_of_numeralValue {digits : Bytes} (hdigits : ∀ byte ∈ digits, isDigit byte = true)
    (hzero : numeralValue digits = 0) : ∀ byte ∈ digits, byte = 48 := by
  induction digits with
  | nil => simp
  | cons digit rest ih =>
      rw [numeralValue_cons, Nat.add_eq_zero_iff, Nat.mul_eq_zero] at hzero
      obtain ⟨hfirst, hrest⟩ := hzero
      have hdigit := (isDigit_iff digit).mp (hdigits digit List.mem_cons_self)
      intro byte hbyte
      rcases List.mem_cons.mp hbyte with rfl | hbyte
      · have hpow : 10 ^ rest.length ≠ 0 := by positivity
        have hlow := hfirst.resolve_right hpow
        apply UInt8.toNat_inj.mp
        have h48 : (48 : UInt8).toNat = 48 := rfl
        omega
      · exact ih (fun other hother => hdigits other (List.mem_cons_of_mem _ hother)) hrest byte
          hbyte

theorem numeralValue_zeros {digits : Bytes} (hzeros : ∀ byte ∈ digits, byte = 48) :
    numeralValue digits = 0 := by
  induction digits with
  | nil => rfl
  | cons digit rest ih =>
      rw [numeralValue_cons, hzeros digit List.mem_cons_self,
        ih fun byte hbyte => hzeros byte (List.mem_cons_of_mem _ hbyte)]
      exact Nat.zero_mul _

/-! ## `strtoul` -/

theorem IsNumeral.takeWhile_eq {digits : Bytes} (hdigits : IsNumeral digits) :
    digits.takeWhile isDigit = digits :=
  List.takeWhile_eq_self_iff.mpr hdigits.2

/-- A numeral is read as a whole, up to the greatest 64-bit number. -/
theorem strtoul_of_numeral {digits : Bytes} (hdigits : IsNumeral digits) :
    strtoul digits =
      (if 2 ^ 64 ≤ numeralValue digits then 2 ^ 64 - 1 else numeralValue digits, []) := by
  have hvalue := foldl_eq_numeralValue digits 0
  rw [Nat.zero_mul, Nat.zero_add] at hvalue
  obtain ⟨first, rest, rfl⟩ := List.exists_cons_of_ne_nil hdigits.1
  have hfirst := hdigits.2 first List.mem_cons_self
  obtain ⟨hplus, hminus⟩ := ne_sign_of_isDigit hfirst
  have htrimmed : (first :: rest).dropWhile isSpace = first :: rest :=
    List.dropWhile_cons_of_neg (by simp [not_isSpace_of_isDigit hfirst])
  simp only [strtoul, htrimmed, List.head?_cons, Option.some.injEq, hplus, hminus, or_self,
    if_false, hdigits.takeWhile_eq, hdigits.1, hvalue, List.drop_length]

/-- So is one behind a sign. -/
theorem strtoul_of_signed {sign : UInt8} (hsign : sign = 43 ∨ sign = 45) {digits : Bytes}
    (hdigits : IsNumeral digits) : (strtoul (sign :: digits)).2 = [] := by
  have htrimmed : (sign :: digits).dropWhile isSpace = sign :: digits :=
    List.dropWhile_cons_of_neg (by simp [not_isSpace_of_sign hsign])
  simp only [strtoul, htrimmed, List.head?_cons, Option.some.injEq, hsign.symm, if_true,
    List.tail_cons, hdigits.takeWhile_eq, hdigits.1, if_false, List.drop_length]

/-- Nothing else is. -/
theorem numeral_of_strtoul {text : Bytes} (hspace : text.dropWhile isSpace = text)
    (hread : (strtoul text).2 ≠ text) (hend : (strtoul text).2 = []) :
    IsNumeral text ∨ ∃ sign digits, (sign = 43 ∨ sign = 45) ∧ text = sign :: digits ∧
      IsNumeral digits := by
  -- what is left behind the sign has to consist of digits
  have hwhole : ∀ unsigned : Bytes, unsigned.takeWhile isDigit ≠ [] →
      unsigned.drop (unsigned.takeWhile isDigit).length = [] → IsNumeral unsigned := by
    intro unsigned hsome hnone
    have heq : unsigned.takeWhile isDigit = unsigned :=
      List.IsPrefix.eq_of_length_le (List.takeWhile_prefix _) (List.drop_eq_nil_iff.mp hnone)
    refine ⟨?_, List.takeWhile_eq_self_iff.mp heq⟩
    rintro rfl
    exact hsome rfl
  by_cases hsign : text.head? = some 45 ∨ text.head? = some 43
  · simp only [strtoul, hspace, hsign, if_true] at hread hend
    by_cases hsome : text.tail.takeWhile isDigit = []
    · rw [if_pos hsome] at hread
      exact absurd rfl hread
    rw [if_neg hsome] at hend
    right
    cases text with
    | nil => simp at hsign
    | cons sign digits =>
        refine ⟨sign, digits, ?_, rfl, hwhole digits hsome hend⟩
        simpa [or_comm] using hsign
  · simp only [strtoul, hspace, hsign, if_false] at hread hend
    by_cases hsome : text.takeWhile isDigit = []
    · rw [if_pos hsome] at hread
      exact absurd rfl hread
    rw [if_neg hsome] at hend
    exact .inl (hwhole text hsome hend)

/-! ## The layers of the parser -/

theorem newline_not_mem_typedText (line : Bytes) : newline ∉ typedText line := by
  intro hmem
  have hpasses := List.mem_takeWhile_imp hmem
  simp at hpasses

/-- Nothing behind the command is lost but what exceeds the buffer. -/
theorem scanCommand_of_get {line : Bytes} (hget : IsGetLine line) :
    scanCommand ((typedText line).dropWhile isSpace) =
      ⟨if (typedArgument line).take 511 = [] then 1 else 2, getWord,
        (typedArgument line).take 511⟩ := by
  have hword : ((typedText line).dropWhile isSpace).dropWhile isSpace =
      (typedText line).dropWhile isSpace := List.dropWhile_idempotent ..
  have hrest : ((typedText line).dropWhile isSpace).drop 3 =
      ((typedText line).dropWhile isSpace).dropWhile fun byte => !isSpace byte := by
    have hsplit := List.takeWhile_append_dropWhile (p := fun byte => !isSpace byte)
      (l := (typedText line).dropWhile isSpace)
    unfold IsGetLine at hget
    rw [hget] at hsplit
    conv_lhs => rw [← hsplit]
    exact List.drop_left' rfl
  have hline : (typedArgument line).takeWhile (· ≠ newline) = typedArgument line := by
    rw [List.takeWhile_eq_self_iff]
    intro byte hbyte
    have hmem : byte ∈ typedText line :=
      (((List.dropWhile_sublist _).trans (List.dropWhile_sublist _)).trans
        (List.dropWhile_sublist _)).subset hbyte
    rw [decide_eq_true_eq]
    rintro rfl
    exact newline_not_mem_typedText line hmem
  have hcmd : getWord.take 15 = getWord := rfl
  unfold IsGetLine at hget
  unfold typedArgument at hline
  simp only [scanCommand, hword, hget, hcmd]
  rw [show getWord.length = 3 from rfl, hrest, hline]
  rfl

theorem typedText_ne_nil_of_get {line : Bytes} (hget : IsGetLine line) :
    (typedText line).dropWhile isSpace ≠ [] := by
  intro hnone
  unfold IsGetLine at hget
  rw [hnone] at hget
  cases hget

/-- The dispatch of a line that begins with `get`. -/
theorem parseCommand_of_get {line : Bytes} (hget : IsGetLine line) :
    parseCommand line =
      let arg := (typedArgument line).take 511
      if arg = [] ∨ (strtoul arg).2 = arg ∨ (strtoul arg).2 ≠ [] then .usage
      else .get (UInt32.ofNat (strtoul arg).1) := by
  have hsome := typedText_ne_nil_of_get hget
  have hscan := scanCommand_of_get hget
  have hshare : getWord ≠ shareWord := by decide
  have hlist : getWord ≠ listWord := by decide
  unfold typedText at hsome hscan
  simp only [parseCommand, hsome, hscan, hshare, hlist, and_false, if_false, if_true]
  by_cases harg : (typedArgument line).take 511 = []
  · simp [harg]
  · simp [harg]

/-- `get` is called for no other line. -/
theorem isGetLine_of_parse {line : Bytes} {fileId : UInt32}
    (hparse : parseCommand line = .get fileId) : IsGetLine line := by
  have hcmd : (scanCommand ((typedText line).dropWhile isSpace)).cmd = getWord := by
    by_contra hother
    unfold typedText at hother
    simp only [parseCommand, hother, if_false] at hparse
    split at hparse
    · cases hparse
    split at hparse
    · split at hparse
      · cases hparse
      · split at hparse <;> cases hparse
    · split at hparse
      · cases hparse
      · split at hparse <;> cases hparse
  have hword : ((typedText line).dropWhile isSpace).dropWhile isSpace =
      (typedText line).dropWhile isSpace := List.dropWhile_idempotent ..
  simp only [scanCommand, hword] at hcmd
  -- a word of which 15 bytes are `get` is no longer than these
  have hlength := congrArg List.length hcmd
  rw [List.length_take, show getWord.length = 3 from rfl] at hlength
  unfold IsGetLine
  rw [← hcmd]
  exact (List.take_of_length_le (by omega)).symm

/-- The argument begins with no space. -/
theorem dropWhile_typedArgument (line : Bytes) :
    ((typedArgument line).take 511).dropWhile isSpace = (typedArgument line).take 511 := by
  have htrimmed : (typedArgument line).dropWhile isSpace = typedArgument line :=
    List.dropWhile_idempotent ..
  cases harg : typedArgument line with
  | nil => rfl
  | cons first rest =>
      rw [harg, List.dropWhile_eq_self_iff] at htrimmed
      have hfirst : ¬ isSpace first = true := htrimmed (Nat.succ_pos _)
      rw [List.take_succ_cons, List.dropWhile_cons_of_neg hfirst]

theorem IsNumeral.dropWhile_eq {digits : Bytes} (hdigits : IsNumeral digits) :
    digits.dropWhile isSpace = digits := by
  obtain ⟨first, rest, rfl⟩ := List.exists_cons_of_ne_nil hdigits.1
  have hfirst := not_isSpace_of_isDigit (hdigits.2 first List.mem_cons_self)
  exact List.dropWhile_cons_of_neg (by simp [hfirst])

/-- What the three scans make of the parts of a line. -/
theorem scan_of_parts {line lead gap digits : Bytes}
    (htext : typedText line = lead ++ (getWord ++ (gap ++ digits)))
    (hlead : ∀ byte ∈ lead, isSpace byte = true) (hgap : gap ≠ [])
    (hspaces : ∀ byte ∈ gap, isSpace byte = true) (hdigits : IsNumeral digits) :
    IsGetLine line ∧ typedArgument line = digits := by
  obtain ⟨space, more, rfl⟩ := List.exists_cons_of_ne_nil hgap
  have hspace := hspaces space List.mem_cons_self
  have hstart : (typedText line).dropWhile isSpace = getWord ++ (space :: more ++ digits) := by
    rw [htext, List.dropWhile_append_of_pos hlead]
    rfl
  have hletters : ∀ byte ∈ getWord, (!isSpace byte) = true := List.all_eq_true.mp rfl
  have hstop : ¬ (!isSpace space) = true := by simp [hspace]
  constructor
  · unfold IsGetLine
    rw [hstart, List.takeWhile_append_of_pos hletters, List.cons_append,
      List.takeWhile_cons_of_neg (p := fun byte => !isSpace byte) hstop, List.append_nil]
  · unfold typedArgument
    rw [hstart, List.dropWhile_append_of_pos hletters, List.cons_append,
      List.dropWhile_cons_of_neg (p := fun byte => !isSpace byte) hstop, ← List.cons_append,
      List.dropWhile_append_of_pos hspaces, hdigits.dropWhile_eq]

/-- A request in terms of the first word and of the argument. -/
theorem typedGet_iff (line : Bytes) (n : Nat) :
    TypedGet line n ↔
      IsGetLine line ∧ IsNumeral (typedArgument line) ∧ numeralValue (typedArgument line) = n := by
  constructor
  · rintro ⟨lead, gap, digits, htext, hlead, hgap, hspaces, hdigits, hvalue⟩
    obtain ⟨hget, harg⟩ := scan_of_parts htext hlead hgap hspaces hdigits
    rw [harg]
    exact ⟨hget, hdigits, hvalue⟩
  · rintro ⟨hget, hdigits, hvalue⟩
    let text := (typedText line).dropWhile isSpace
    let behind := text.dropWhile fun byte => !isSpace byte
    refine ⟨(typedText line).takeWhile isSpace, behind.takeWhile isSpace, typedArgument line,
      ?_, fun byte hbyte => List.mem_takeWhile_imp hbyte, ?_,
      fun byte hbyte => List.mem_takeWhile_imp hbyte, hdigits, hvalue⟩
    · have hbehind : behind.takeWhile isSpace ++ typedArgument line = behind :=
        List.takeWhile_append_dropWhile
      have hword : getWord ++ behind = text := by
        rw [← show text.takeWhile (fun byte => !isSpace byte) = getWord from hget]
        exact List.takeWhile_append_dropWhile
      rw [hbehind, hword]
      exact List.takeWhile_append_dropWhile.symm
    · -- the scan for the end of the word has stopped at a space
      intro hnone
      have hkept : typedArgument line = behind := by
        have hsplit : behind.takeWhile isSpace ++ typedArgument line = behind :=
          List.takeWhile_append_dropWhile
        rwa [hnone, List.nil_append] at hsplit
      have hstopped : behind.dropWhile (fun byte => !isSpace byte) = behind :=
        List.dropWhile_idempotent ..
      rw [← hkept] at hstopped
      obtain ⟨first, rest, harg⟩ := List.exists_cons_of_ne_nil hdigits.1
      have hfirst := not_isSpace_of_isDigit (hdigits.2 first (by simp [harg]))
      rw [harg, List.dropWhile_eq_self_iff] at hstopped
      exact hstopped (Nat.succ_pos _) (by simp [hfirst])

/-- The lines for which `get` is called, and the file id it is called with. -/
theorem get_of_numeral {line : Bytes} (hget : IsGetLine line)
    (hdigits : IsNumeral ((typedArgument line).take 511)) :
    parseCommand line = .get (UInt32.ofNat
      (if 2 ^ 64 ≤ numeralValue ((typedArgument line).take 511) then 2 ^ 64 - 1
      else numeralValue ((typedArgument line).take 511))) := by
  have hread := strtoul_of_numeral hdigits
  rw [parseCommand_of_get hget]
  simp only [hread, hdigits.1, hdigits.1.symm, ne_eq, not_true_eq_false, or_self, if_false]

theorem get_of_signed {line : Bytes} (hget : IsGetLine line) {sign : UInt8} {digits : Bytes}
    (hsign : sign = 43 ∨ sign = 45) (hcut : (typedArgument line).take 511 = sign :: digits)
    (hdigits : IsNumeral digits) : ∃ fileId, parseCommand line = .get fileId := by
  have hread := strtoul_of_signed hsign hdigits
  refine ⟨UInt32.ofNat (strtoul (sign :: digits)).1, ?_⟩
  rw [parseCommand_of_get hget]
  simp [hcut, hread]

/-- Nothing is sent for a line that `get` is not called for. -/
theorem handleCommand_of_rejected {line : Bytes} (hget : IsGetLine line)
    (hother : ∀ fileId, parseCommand line ≠ .get fileId) (host : ByteOrder) (env : CommandEnv)
    (client : ClientState) : handleCommand host env client line = ⟨client, true, []⟩ := by
  have husage : parseCommand line = .usage := by
    have hdispatch := parseCommand_of_get hget
    simp only at hdispatch
    split at hdispatch
    · exact hdispatch
    · exact absurd hdispatch (hother _)
  simp only [handleCommand, husage]

/-! ## The criterion -/

/-- A numeral of 32 bits is what `get` is called with. -/
theorem get_of_small_numeral {line : Bytes} (hget : IsGetLine line)
    (hdigits : IsNumeral ((typedArgument line).take 511))
    (hsmall : numeralValue ((typedArgument line).take 511) < 2 ^ 32) :
    ∃ fileId : UInt32, parseCommand line = .get fileId ∧
      fileId.toNat = numeralValue ((typedArgument line).take 511) := by
  have hfits : ¬ 2 ^ 64 ≤ numeralValue ((typedArgument line).take 511) := by omega
  refine ⟨_, get_of_numeral hget hdigits, ?_⟩
  rw [if_neg hfits, UInt32.toNat_ofNat']
  exact Nat.mod_eq_of_lt hsmall

/-- A larger one is no file id. -/
theorem not_typedGet_of_large {line : Bytes}
    (hlarge : 2 ^ 32 ≤ numeralValue ((typedArgument line).take 511)) (fileId : UInt32) :
    ¬ TypedGet line fileId.toNat := by
  rw [typedGet_iff]
  rintro ⟨-, -, hvalue⟩
  have hle := numeralValue_take_le (typedArgument line) 511
  have hlt := fileId.toNat_lt
  omega

/-- A misread line calls `get`, and with no id that it asks for. -/
theorem Misread.not_typed {line : Bytes} (hmisread : Misread line) :
    ∃ fileId, parseCommand line = .get fileId ∧ ¬ TypedGet line fileId.toNat := by
  cases hmisread with
  | signed hget sign digits hsign hcut hdigits =>
      obtain ⟨fileId, hparse⟩ := get_of_signed hget hsign hcut hdigits
      refine ⟨fileId, hparse, ?_⟩
      rw [typedGet_iff]
      rintro ⟨-, hnumeral, -⟩
      -- the sign is the first byte of the argument
      have hmem : sign ∈ (typedArgument line).take 511 := by
        rw [hcut]
        exact List.mem_cons_self
      have hne := ne_sign_of_isDigit (hnumeral.2 sign (List.mem_of_mem_take hmem))
      rcases hsign with hplus | hminus
      · exact hne.1 hplus
      · exact hne.2 hminus
  | tooLarge hget hdigits hlarge =>
      exact ⟨_, get_of_numeral hget hdigits, not_typedGet_of_large hlarge _⟩
  | tooLong hget hdigits hlong byte hmem hnonzero =>
      by_cases hlarge : 2 ^ 32 ≤ numeralValue ((typedArgument line).take 511)
      · exact ⟨_, get_of_numeral hget hdigits, not_typedGet_of_large hlarge _⟩
      obtain ⟨fileId, hparse, hid⟩ := get_of_small_numeral hget hdigits (by omega)
      refine ⟨fileId, hparse, ?_⟩
      rw [typedGet_iff, hid]
      rintro ⟨-, hnumeral, hvalue⟩
      -- each digit that was cut off multiplies the value by ten
      have hsplit := numeralValue_append ((typedArgument line).take 511)
        ((typedArgument line).drop 511)
      rw [List.take_append_drop, hvalue] at hsplit
      have hten : 10 ≤ 10 ^ ((typedArgument line).drop 511).length := by
        apply Nat.le_self_pow
        rw [List.length_drop]
        omega
      have hzero : numeralValue ((typedArgument line).take 511) = 0 := by
        nlinarith
      rw [hzero] at hvalue
      exact hnonzero (eq_zeros_of_numeralValue hnumeral.2 hvalue byte hmem)

theorem Misread.not_requestsTypedId {line : Bytes} (hmisread : Misread line) :
    ¬ RequestsTypedId line := by
  intro hrequests
  obtain ⟨fileId, hparse, hnot⟩ := hmisread.not_typed
  exact hnot (hrequests.typed fileId hparse)

/-- A line that `get` is called for is one of the three kinds or a request. -/
theorem typedGet_of_parse {line : Bytes} (hread : ¬ Misread line) {fileId : UInt32}
    (hparse : parseCommand line = .get fileId) : TypedGet line fileId.toNat := by
  have hget := isGetLine_of_parse hparse
  have hdispatch := parseCommand_of_get hget
  simp only [hparse] at hdispatch
  split at hdispatch
  · cases hdispatch
  next haccepted =>
  rw [not_or, not_or, not_not] at haccepted
  obtain ⟨-, hsome, hend⟩ := haccepted
  rcases numeral_of_strtoul (dropWhile_typedArgument line) hsome hend with
    hdigits | ⟨sign, digits, hsign, hcut, hdigits⟩
  swap
  · exact absurd (.signed hget sign digits hsign hcut hdigits) hread
  have hsmall : numeralValue ((typedArgument line).take 511) < 2 ^ 32 := by
    by_contra hlarge
    exact hread (.tooLarge hget hdigits (not_lt.mp hlarge))
  obtain ⟨fileId', hparse', hid⟩ := get_of_small_numeral hget hdigits hsmall
  rw [hparse] at hparse'
  obtain rfl := CommandLine.get.inj hparse'
  rw [typedGet_iff, hid]
  by_cases hlong : 511 < (typedArgument line).length
  · -- only zeros may be cut off
    have hzeros : ∀ byte ∈ typedArgument line, byte = 48 := by
      intro byte hmem
      by_contra hnonzero
      exact hread (.tooLong hget hdigits hlong byte hmem hnonzero)
    refine ⟨hget, ⟨?_, ?_⟩, ?_⟩
    · intro hnone
      rw [hnone] at hlong
      simp at hlong
    · intro byte hmem
      rw [hzeros byte hmem]
      rfl
    · rw [numeralValue_zeros hzeros,
        numeralValue_zeros fun byte hmem => hzeros byte (List.mem_of_mem_take hmem)]
  · rw [List.take_of_length_le (not_lt.mp hlong)] at hdigits ⊢
    exact ⟨hget, hdigits, rfl⟩

/-- A line is read as it was typed unless it is of one of the three kinds. -/
theorem typed_id_requested_iff (line : Bytes) : RequestsTypedId line ↔ ¬ Misread line := by
  constructor
  · intro hrequests hmisread
    exact hmisread.not_requestsTypedId hrequests
  · intro hread
    have htyped : ∀ fileId : UInt32, parseCommand line = .get fileId →
        TypedGet line fileId.toNat := fun fileId => typedGet_of_parse hread
    refine ⟨htyped, ?_⟩
    intro hget hnone host env client
    apply handleCommand_of_rejected hget
    intro fileId hparse
    exact hnone ⟨fileId.toNat, fileId.toNat_lt, htyped fileId hparse⟩

/-- The lines `get -1` and `get 4294967297`. -/
def negativeLine : Bytes := getWord ++ [32, 45, 49, newline]

def largeLine : Bytes := getWord ++ [32, 52, 50, 57, 52, 57, 54, 55, 50, 57, 55, newline]

/-- The server is asked for file 4294967295 and for file 1. -/
theorem other_id_requested :
    ¬ RequestsTypedId negativeLine ∧ parseCommand negativeLine = .get 4294967295 ∧
      (handleCommand .little (barrenEnv unknownFileAnswer) idleClient negativeLine).sent.head? =
        some (requestMessage .little 4294967295) ∧
      ¬ RequestsTypedId largeLine ∧ parseCommand largeLine = .get 1 := by
  have hnegative : Misread negativeLine :=
    .signed rfl 45 [49] (.inr rfl) (by decide +kernel) (by decide +kernel)
  have hlarge : Misread largeLine :=
    .tooLarge rfl (by decide +kernel) (by decide +kernel)
  exact ⟨hnegative.not_requestsTypedId, by decide +kernel, by decide +kernel,
    hlarge.not_requestsTypedId, by decide +kernel⟩

end Client
end PeerShare
