import TelemetryTestbed.Lib.Double

/-!
# Formatted output

`printf` with the conversions `%s`, `%d`, `%u`, `%lld`, `%llu` and `%.6f`, over
arguments that carry their C type. A format string is cut into its pieces
(`formatPieces`) and the pieces are filled (`fillPieces`). The answer is `none`
where an argument is missing, is left over, or does not have the type its
conversion asks for.

Flags, widths and precisions are not read, and neither is `%%`: the formats of the programs
modelled over this have none. A format with anything else has no pieces, so a model that uses
one cannot be given an output by mistake. That no NUL is printed means that the length
`printf` answers and the length of the C string are the same.
-/

namespace TelemetryTestbed.Lib

/-- An argument of a variadic call, with its type after the promotions. -/
inductive CArg
  | str (s : Bytes)
  | int (n : Int32)
  | uint (n : UInt32)
  | longLong (n : Int64)
  | ulongLong (n : UInt64)
  | double (x : Double)

/-- The conversions of `printf` that are used, without flags or widths. -/
inductive Conversion
  | s
  | d
  | u
  | lld
  | llu
  | f6
  deriving DecidableEq

/-- A piece of a format: text that stands for itself, or a conversion. -/
inductive FormatPiece
  | lit (text : Bytes)
  | conv (c : Conversion)
  deriving DecidableEq

/-- The conversion a format string starts with, behind its `%`. -/
def conversion : Bytes → Option (Conversion × Bytes)
  | 115 :: fmt => some (.s, fmt)
  | 100 :: fmt => some (.d, fmt)
  | 117 :: fmt => some (.u, fmt)
  | 108 :: 108 :: 100 :: fmt => some (.lld, fmt)
  | 108 :: 108 :: 117 :: fmt => some (.llu, fmt)
  | 46 :: 54 :: 102 :: fmt => some (.f6, fmt)
  | _ => none

/-- The pieces of a format string; the first argument bounds their number. -/
def formatPieces : Nat → Bytes → Option (List FormatPiece)
  | _, [] => some []
  | 0, _ :: _ => none
  | n + 1, c :: fmt =>
    if c = 37 then
      (conversion fmt).bind fun (conv, fmt) => (formatPieces n fmt).map (.conv conv :: ·)
    else
      (formatPieces n fmt).map fun
        | .lit text :: pieces => .lit (c :: text) :: pieces
        | pieces => .lit [c] :: pieces

/-- The text of one argument. -/
def Conversion.show : Conversion → CArg → Option Bytes
  | .s, .str text => some (cstr text)
  | .d, .int n => some (decimal n.toInt)
  | .u, .uint n => some (decimal n.toNat)
  | .lld, .longLong n => some (decimal n.toInt)
  | .llu, .ulongLong n => some (decimal n.toNat)
  | .f6, .double x => some x.format6
  | _, _ => none

def fillPieces : List FormatPiece → List CArg → Option Bytes
  | [], [] => some []
  | [], _ :: _ => none
  | .lit text :: pieces, args => (fillPieces pieces args).map (text ++ ·)
  | .conv _ :: _, [] => none
  | .conv c :: pieces, arg :: args =>
    (c.show arg).bind fun text => (fillPieces pieces args).map (text ++ ·)

/-- The text of a format string with its arguments. -/
def cformat (fmt : Bytes) (args : List CArg) : Option Bytes :=
  (formatPieces fmt.length fmt).bind fun pieces => fillPieces pieces args

example : cformat (ascii "<%s %d>") [.str (ascii "a"), .int (-7)] = some (ascii "<a -7>") := by
  decide

/-! ## No NUL is printed -/

theorem zero_notMem_of_isdigit {text : Bytes} (h : ∀ b ∈ text, isdigit b = true) :
    (0 : UInt8) ∉ text := by
  intro h0
  exact absurd (h 0 h0) (by decide)

theorem zero_notMem_decimal (n : Int) : (0 : UInt8) ∉ decimal n := by
  intro h0
  rcases mem_decimal h0 with h | h
  · exact absurd h (by decide)
  · exact absurd h (by decide)

theorem zero_notMem_format6 (x : Double) : (0 : UInt8) ∉ x.format6 := by
  have hminus : ∀ (neg : Bool) {text : Bytes}, (0 : UInt8) ∉ text → (0 : UInt8) ∉ minusIf neg text := by
    intro neg text h
    cases neg with
    | false => exact h
    | true =>
      intro h0
      rcases List.mem_cons.mp h0 with h0 | h0
      · exact absurd h0 (by decide)
      · exact h h0
  cases x with
  | nan neg => exact hminus neg (by decide)
  | inf neg => exact hminus neg (by decide)
  | fin neg mant exp =>
    apply hminus neg
    intro h0
    rcases List.mem_append.mp h0 with h0 | h0
    · exact zero_notMem_of_isdigit (fun b hb => isdigit_decimalNat hb) h0
    · rcases List.mem_cons.mp h0 with h0 | h0
      · exact absurd h0 (by decide)
      · exact zero_notMem_of_isdigit (fun b hb => isdigit_fixedDigits hb) h0

theorem zero_notMem_show {c : Conversion} {arg : CArg} {text : Bytes}
    (h : c.show arg = some text) : (0 : UInt8) ∉ text := by
  cases c <;> cases arg <;> simp only [Conversion.show, reduceCtorEq, Option.some.injEq] at h <;>
    subst h
  · exact zero_notMem_cstr _
  · exact zero_notMem_decimal _
  · exact zero_notMem_decimal _
  · exact zero_notMem_decimal _
  · exact zero_notMem_decimal _
  · exact zero_notMem_format6 _

theorem zero_notMem_conversion {fmt rest : Bytes} {c : Conversion}
    (h : conversion fmt = some (c, rest)) (hfmt : (0 : UInt8) ∉ fmt) : (0 : UInt8) ∉ rest := by
  have hsub : rest <:+ fmt := by
    unfold conversion at h
    split at h <;> cases h
    · exact List.suffix_append [115] _
    · exact List.suffix_append [100] _
    · exact List.suffix_append [117] _
    · exact List.suffix_append [108, 108, 100] _
    · exact List.suffix_append [108, 108, 117] _
    · exact List.suffix_append [46, 54, 102] _
  exact fun h0 => hfmt (hsub.mem h0)

/-- The literal pieces are parts of the format. -/
theorem zero_notMem_formatPieces {n : Nat} {fmt : Bytes} {pieces : List FormatPiece}
    (h : formatPieces n fmt = some pieces) (hfmt : (0 : UInt8) ∉ fmt) :
    ∀ text, .lit text ∈ pieces → (0 : UInt8) ∉ text := by
  induction n generalizing fmt pieces with
  | zero =>
    cases fmt with
    | nil =>
      cases h
      intro text ht
      cases ht
    | cons c fmt => cases h
  | succ n ih =>
    cases fmt with
    | nil =>
      cases h
      intro text ht
      cases ht
    | cons c fmt =>
      have hc : (0 : UInt8) ≠ c := fun h0 => hfmt (h0 ▸ List.mem_cons_self)
      have htail : (0 : UInt8) ∉ fmt := fun h0 => hfmt (List.mem_cons_of_mem _ h0)
      simp only [formatPieces] at h
      split at h
      · obtain ⟨conv, hconv, hrest⟩ := Option.bind_eq_some_iff.mp h
        obtain ⟨rest, hpieces, rfl⟩ := Option.map_eq_some_iff.mp hrest
        intro text ht
        rcases List.mem_cons.mp ht with ht | ht
        · cases ht
        · exact ih hpieces (zero_notMem_conversion hconv htail) text ht
      · obtain ⟨rest, hpieces, hjoin⟩ := Option.map_eq_some_iff.mp h
        have hrest := ih hpieces htail
        split at hjoin
        · next lit pieces' =>
          subst hjoin
          intro text ht
          rcases List.mem_cons.mp ht with ht | ht
          · cases ht
            intro h0
            rcases List.mem_cons.mp h0 with h0 | h0
            · exact hc h0
            · exact hrest lit List.mem_cons_self h0
          · exact hrest text (List.mem_cons_of_mem _ ht)
        · subst hjoin
          intro text ht
          rcases List.mem_cons.mp ht with ht | ht
          · cases ht
            intro h0
            exact hc (List.mem_singleton.mp h0)
          · exact hrest text ht

theorem zero_notMem_fillPieces {pieces : List FormatPiece} {args : List CArg} {out : Bytes}
    (h : fillPieces pieces args = some out)
    (hlit : ∀ text, .lit text ∈ pieces → (0 : UInt8) ∉ text) : (0 : UInt8) ∉ out := by
  fun_induction fillPieces pieces args generalizing out with
  | case1 =>
    cases h
    exact List.not_mem_nil
  | case2 => cases h
  | case3 text pieces args ih =>
    obtain ⟨rest, hrest, rfl⟩ := Option.map_eq_some_iff.mp h
    intro h0
    rcases List.mem_append.mp h0 with h0 | h0
    · exact hlit text List.mem_cons_self h0
    · exact ih hrest (fun t ht => hlit t (List.mem_cons_of_mem _ ht)) h0
  | case4 => cases h
  | case5 c pieces arg args ih =>
    obtain ⟨text, htext, htail⟩ := Option.bind_eq_some_iff.mp h
    obtain ⟨rest, hrest, rfl⟩ := Option.map_eq_some_iff.mp htail
    intro h0
    rcases List.mem_append.mp h0 with h0 | h0
    · exact zero_notMem_show htext h0
    · exact ih hrest (fun t ht => hlit t (List.mem_cons_of_mem _ ht)) h0

/-- What is printed has no NUL in it, whatever the arguments. -/
theorem zero_notMem_cformat {fmt : Bytes} {args : List CArg} {out : Bytes}
    (h : cformat fmt args = some out) (hfmt : (0 : UInt8) ∉ fmt) : (0 : UInt8) ∉ out := by
  obtain ⟨pieces, hpieces, hfill⟩ := Option.bind_eq_some_iff.mp h
  exact zero_notMem_fillPieces hfill (zero_notMem_formatPieces hpieces hfmt)

end TelemetryTestbed.Lib
