import LuaSyntax.Command
import LuaSyntax.Proofs.LineTexts
import LuaSyntax.Proofs.Reading

/-! Runs of the command. A file is decoded as a whole, and then its text is read again through
readers, which find the same characters and nothing wrong with them. So what is printed is what
scanning and parsing the text give. Bytes that are no text are refused before anything is
printed. -/

namespace LuaSyntax.Command

/-- What the steps give, and what is printed behind them if `out` was before. -/
def Printing.result {α : Type} (steps : Printing α) (out : Output) : Except Failure α × Output :=
  steps.run.run out

namespace Printing

variable {α β : Type} {steps : Printing α} {out mid : Output}

theorem result_bind (f : α → Printing β) :
    (steps >>= f).result out = ExceptT.bindCont f (steps.result out).1 (steps.result out).2 := rfl

theorem result_bind_of_ok {a : α} (h : steps.result out = (.ok a, mid)) (f : α → Printing β) :
    (steps >>= f).result out = (f a).result mid := by
  rw [result_bind, h]
  rfl

theorem result_bind_of_error {e : Failure} (h : steps.result out = (.error e, mid))
    (f : α → Printing β) : (steps >>= f).result out = (.error e, mid) := by
  rw [result_bind, h]
  rfl

end Printing

open Printing

/-! Reading the file. -/

theorem readSource_toUTF8 (text : String) :
    readSource (.ok text.toUTF8.data.toList) = .ok text := by
  have hdecode : decodeBytes? text.toUTF8.data.toList = some text.toList :=
    decodeBytes?_eq_some.2 (data_toUTF8 text)
  simp only [readSource, Except.mapError, bind, Except.bind, hdecode, String.ofList_toList]
  rfl

theorem readSource_of_invalid {bytes : List UInt8}
    (h : ¬(ByteArray.mk bytes.toArray).IsValidUTF8) :
    readSource (.ok bytes) = .error (.file (.unreadable .invalidUtf8)) := by
  have hdecode : decodeBytes? bytes = none := by
    rw [Option.eq_none_iff_forall_ne_some]
    intro cs hcs
    exact h (isValidUTF8_iff.2 ⟨cs, decodeBytes?_eq_some.1 hcs⟩)
  simp only [readSource, Except.mapError, bind, Except.bind, hdecode]
  rfl

/-! Reading its text again. -/

theorem scanBytes_toUTF8 (text : String) (file : Option String) :
    scanBytes text.toUTF8.data.toList file = (scan text file, none) := by
  rw [data_toUTF8, scanBytes_eq, readable_utf8, readError?_utf8]
  rfl

theorem parseBytes_toUTF8 (text : String) (file : Option String) :
    parseBytes text.toUTF8.data.toList file = (parse text file, none) := by
  rw [parseBytes, scanBytes_toUTF8]
  rfl

section

variable (o : Options) (text : String) (out : Output)

theorem result_listTokens :
    (o.listTokens text.toUTF8.data.toList).result out =
      (.ok (), { out with
        stdout := out.stdout ++
          if o.tokens then tokenLines (tokenize text o.name?).dropLast else "" }) := by
  rw [Options.listTokens, scanBytes_toUTF8, dropLast_tokenize]
  cases o.tokens with
  | false =>
    rw [if_neg Bool.false_ne_true, if_neg Bool.false_ne_true, String.append_empty]
    rfl
  | true => rfl

theorem result_printTree (program : Program Token) :
    (o.printTree program).result out =
      (.ok (), { out with
        stdout := out.stdout ++ if o.tree then program.render ++ "\n" else "" }) := by
  rw [Options.printTree]
  cases o.tree with
  | false =>
    rw [if_neg Bool.false_ne_true, if_neg Bool.false_ne_true, String.append_empty]
    rfl
  | true => rfl

end

/-! Reports. -/

def reports (ds : List Diagnostic) (source : String) : String :=
  String.join (ds.map fun d => d.report source ++ "\n")

theorem reports_cons (d : Diagnostic) (ds : List Diagnostic) (source : String) :
    reports (d :: ds) source = d.report source ++ "\n" ++ reports ds source :=
  String.join_cons

theorem result_printReports {ds : List Diagnostic} {text : String}
    (h : ∀ d ∈ ds, d.caretWidth (d.sourceLine text) ≤ Diagnostic.maxWidth) (out : Output) :
    Printing.result (ds.forM (printReport text)) out =
      (.ok (), { out with stderr := out.stderr ++ reports ds text }) := by
  induction ds generalizing out with
  | nil =>
    rw [reports, List.map_nil, String.join_nil, String.append_empty]
    rfl
  | cons d ds ih =>
    obtain ⟨hd, hds⟩ := List.forall_mem_cons.1 h
    have hprint : (printReport text d).result out =
        (.ok (), { out with stderr := out.stderr ++ (d.report text ++ "\n") }) := by
      rw [printReport, Diagnostic.report?, if_pos hd]
      rfl
    refine (result_bind_of_ok hprint _).trans ?_
    rw [ih hds, reports_cons, String.append_assoc]

theorem result_printReports_of_wide {front back : List Diagnostic} {d : Diagnostic} {text : String}
    (h : ∀ e ∈ front, e.caretWidth (e.sourceLine text) ≤ Diagnostic.maxWidth)
    (hd : Diagnostic.maxWidth < d.caretWidth (d.sourceLine text)) (out : Output) :
    Printing.result ((front ++ d :: back).forM (printReport text)) out =
      (.error .panic, { out with stderr := out.stderr ++ reports front text }) := by
  have hpanic (out : Output) : (printReport text d).result out = (.error .panic, out) := by
    rw [printReport, Diagnostic.report?, if_neg (Nat.not_le_of_lt hd)]
    rfl
  rw [List.forM_eq_forM, List.forM_append]
  refine (result_bind_of_ok (result_printReports h out) _).trans ?_
  exact result_bind_of_error (hpanic _) _

section

variable (o : Options) (text : String) (out : Output)

def Options.shown (o : Options) (text : String) : String :=
  (if o.tokens then tokenLines (tokenize text o.name?).dropLast else "") ++
    if o.tree then (parse text o.name?).program.render ++ "\n" else ""

theorem result_check :
    (o.check (.ok text.toUTF8.data.toList)).result out =
      Printing.result (do
        (parse text o.name?).diagnostics.forM (printReport text)
        return (parse text o.name?).diagnostics.isEmpty)
        { out with stdout := out.stdout ++ o.shown text } := by
  have hread : Printing.result (readSource (.ok text.toUTF8.data.toList)) out =
      (.ok text, out) := by
    rw [readSource_toUTF8]
    rfl
  rw [Options.check]
  refine (result_bind_of_ok hread _).trans ?_
  refine (result_bind_of_ok (result_listTokens o text out) _).trans ?_
  simp only [parseBytes_toUTF8]
  refine (result_bind_of_ok (a := ()) rfl _).trans ?_
  refine (result_bind_of_ok (result_printTree o _ _) _).trans ?_
  rw [Options.shown, ← String.append_assoc]

theorem result_check_of_error {content : Except FileError (List UInt8)} {e : Failure}
    (h : readSource content = .error e) : (o.check content).result out = (.error e, out) := by
  rw [Options.check, h]
  exact result_bind_of_error rfl _

end

section

variable {o : Options} {content : Except FileError (List UInt8)} {out : Output}

theorem run_of_ok {clean : Bool} (h : (o.check content).result {} = (.ok clean, out)) :
    o.run content = ⟨if clean then 0 else 1, out.stdout, out.stderr⟩ := by
  have hrun : (o.check content).run.run {} = (.ok clean, out) := h
  rw [Options.run, hrun]

theorem run_of_error {e : FileError} (h : (o.check content).result {} = (.error (.file e), out)) :
    o.run content =
      ⟨2, out.stdout, out.stderr ++ "error: " ++ e.message o.file ++ "\n"⟩ := by
  have hrun : (o.check content).run.run {} = (.error (.file e), out) := h
  rw [Options.run, hrun]

theorem run_of_panic (h : (o.check content).result {} = (.error .panic, out)) :
    o.run content = ⟨101, out.stdout, out.stderr⟩ := by
  have hrun : (o.check content).run.run {} = (.error .panic, out) := h
  rw [Options.run, hrun]

end

section

variable (o : Options) {text : String}

theorem result_check_of_fits
    (h : ∀ d ∈ (parse text o.name?).diagnostics,
      d.caretWidth (d.sourceLine text) ≤ Diagnostic.maxWidth) :
    (o.check (.ok text.toUTF8.data.toList)).result {} =
      (.ok (parse text o.name?).diagnostics.isEmpty,
        ⟨o.shown text, reports (parse text o.name?).diagnostics text⟩) := by
  rw [result_check]
  refine (result_bind_of_ok (result_printReports h _) _).trans ?_
  rw [String.empty_append, String.empty_append]
  rfl

theorem run_of_wide {front back : List Diagnostic} {d : Diagnostic}
    (hparse : (parse text o.name?).diagnostics = front ++ d :: back)
    (hfront : ∀ e ∈ front, e.caretWidth (e.sourceLine text) ≤ Diagnostic.maxWidth)
    (hd : Diagnostic.maxWidth < d.caretWidth (d.sourceLine text)) :
    o.run (.ok text.toUTF8.data.toList) = ⟨101, o.shown text, reports front text⟩ := by
  have hresult : (o.check (.ok text.toUTF8.data.toList)).result {} =
      (.error .panic, ⟨o.shown text, reports front text⟩) := by
    rw [result_check, hparse]
    refine (result_bind_of_error (result_printReports_of_wide hfront hd _) _).trans ?_
    rw [String.empty_append, String.empty_append]
  exact run_of_panic hresult

end

/-- On the bytes of a text no reader is left with an error that would end the run. It prints one
line for each token before the end of input and then the program, both if they were asked for. If no
report is wider than text can be padded, the run succeeds; it prints a report for each diagnostic,
of which there is none just if the exit code is zero. Otherwise the first that is too wide ends it
with a panic, behind the reports before that one. On bytes that are not valid UTF-8 the exit code is
two and only the error is printed, whatever was asked for. -/
theorem run_reports_parse (o : Options) (text : String) (bytes : List UInt8) :
    ((scanBytes text.toUTF8.data.toList o.name?).2 = none ∧
      (parseBytes text.toUTF8.data.toList o.name?).2 = none) ∧
    (let ds := (parse text o.name?).diagnostics
      let shown := (if o.tokens then
          String.join ((tokenize text o.name?).dropLast.map fun t => t.listing ++ "\n")
        else "") ++
        if o.tree then (parse text o.name?).program.render ++ "\n" else ""
      ((∀ d ∈ ds, d.caretWidth (d.sourceLine text) ≤ 65535) →
        ((o.check (.ok text.toUTF8.data.toList)).result {}).1 = .ok ds.isEmpty ∧
        o.run (.ok text.toUTF8.data.toList) = {
          exit := if ds.isEmpty then 0 else 1
          stdout := shown
          stderr := String.join (ds.map fun d => d.report text ++ "\n") }) ∧
      ∀ front d back, ds = front ++ d :: back →
        (∀ e ∈ front, e.caretWidth (e.sourceLine text) ≤ 65535) →
        65535 < d.caretWidth (d.sourceLine text) →
        o.run (.ok text.toUTF8.data.toList) = {
          exit := 101
          stdout := shown
          stderr := String.join (front.map fun d => d.report text ++ "\n") }) ∧
    (¬(ByteArray.mk bytes.toArray).IsValidUTF8 →
      o.run (.ok bytes) = {
        exit := 2
        stdout := ""
        stderr := "error: " ++ FileError.message o.file (.unreadable .invalidUtf8) ++ "\n" }) := by
  refine ⟨⟨?_, ?_⟩, ⟨fun hfits => ?_, fun front d back => run_of_wide o⟩, fun hinvalid => ?_⟩
  · rw [scanBytes_toUTF8]
  · rw [parseBytes_toUTF8]
  · have hresult := result_check_of_fits o hfits
    exact ⟨by rw [hresult], run_of_ok hresult⟩
  · rw [run_of_error (result_check_of_error o {} (readSource_of_invalid hinvalid)),
      String.empty_append]

theorem run_reports_parse_unclosed :
    let o : Options := ⟨"a/b.lua", true, true, some "b.lua"⟩
    o.run (.ok "x = 1\nwhile x do".toUTF8.data.toList) = {
        exit := 1
        stdout := "Identifier (x) 1:1\nAssign () 1:3\nNumerical (1) 1:5\nNewline () 1:6\n" ++
          "While () 2:1\nIdentifier (x) 2:7\nDo () 2:9\n" ++ "x = 1\n"
        stderr := "Error: BlockStatement " ++
          "(Input ended inside `while` block, did you miss `end`?)\n" ++
          "-> b.lua\n  |\n2 | while x do\n  | ----------^\n\n" } ∧
      ¬(ByteArray.mk #[0x78, 0xff]).IsValidUTF8 ∧
      o.run (.ok [0x78, 0xff]) = {
        exit := 2
        stdout := ""
        stderr := "error: could not read a/b.lua: stream did not contain valid UTF-8\n" } := by
  intro o
  have hinvalid : ¬(ByteArray.mk #[0x78, 0xff]).IsValidUTF8 := by decide +kernel
  obtain ⟨-, ⟨htext, -⟩, hbytes⟩ := run_reports_parse o "x = 1\nwhile x do" [0x78, 0xff]
  refine ⟨(htext ?_).2.trans ?_, hinvalid, hbytes hinvalid⟩
  · decide +kernel
  · decide +kernel

/-! A report that is too wide. -/

theorem after_blanks (p : Position) (n : Nat) (next : Option Char) :
    p.after (List.replicate n ' ') next = { p with column := p.column + UInt32.ofNat n } := by
  induction n generalizing p with
  | zero => exact congrArg (Position.mk p.line · p.file) (UInt32.add_zero p.column).symm
  | succ n ih =>
    have hstep : p.step ' ' ((List.replicate n ' ').head?.or next) =
        { p with column := p.column + 1 } := rfl
    rw [List.replicate_succ, Position.after, hstep, ih, UInt32.add_assoc, Nat.add_comm n 1,
      UInt32.ofNat_add]
    rfl

/-- A name, and far behind it a parenthesis that closes nothing. -/
def farParen (n : Nat) : String := String.ofList ('x' :: (List.replicate n ' ' ++ [')', '\n']))

theorem lexemes_farParen (n : Nat) :
    lexemes (farParen (n + 1)).toList =
      [⟨some .identifier, ['x']⟩, ⟨none, List.replicate (n + 1) ' '⟩, ⟨some .rightParen, [')']⟩,
        ⟨some .newline, ['\n']⟩] := by
  have hword : Lexeme.first 'x' (List.replicate (n + 1) ' ' ++ [')', '\n']) =
      (⟨some .identifier, ['x']⟩, List.replicate (n + 1) ' ' ++ [')', '\n']) := by
    rw [List.replicate_succ, List.cons_append]
    rfl
  have hblank : ∀ c ∈ List.replicate n ' ', Lexeme.isBlank c = true := by
    intro c hc
    rw [List.eq_of_mem_replicate hc]
    rfl
  have hblanks : Lexeme.first ' ' (List.replicate n ' ' ++ [')', '\n']) =
      (⟨none, List.replicate (n + 1) ' '⟩, [')', '\n']) := by
    change Lexeme.blanks ' ' _ = _
    rw [Lexeme.blanks, List.takeWhile_append_of_pos hblank, List.dropWhile_append_of_pos hblank,
      List.replicate_succ]
    exact congrArg (fun cs => (Lexeme.mk none (' ' :: cs), [')', '\n'])) (List.append_nil _)
  have hrest : lexemes [')', '\n'] = [⟨some .rightParen, [')']⟩, ⟨some .newline, ['\n']⟩] := by
    decide +kernel
  rw [farParen, String.toList_ofList, lexemes_cons, hword, List.replicate_succ, List.cons_append,
    lexemes_cons, hblanks, hrest, List.replicate_succ]

theorem scan_farParen (n : Nat) (file : String) :
    scan (farParen (n + 1)) (some file) =
      let column := 2 + UInt32.ofNat (n + 1)
      ⟨[⟨.identifier, "x", ⟨⟨1, 1, file⟩, ⟨1, 2, file⟩⟩⟩,
        ⟨.rightParen, ")", ⟨⟨1, column, file⟩, ⟨1, column + 1, file⟩⟩⟩,
        ⟨.newline, "", ⟨⟨1, column + 1, file⟩, ⟨2, 1, file⟩⟩⟩], ⟨2, 1, file⟩⟩ := by
  have hblanks (next : Option Char) :
      Position.after ⟨1, 2, file⟩ (List.replicate (n + 1) ' ') next =
        ⟨1, 2 + UInt32.ofNat (n + 1), file⟩ := after_blanks _ _ _
  rw [scan, scanChars, lexemes_farParen]
  simp only [Scanned.ofLexemes]
  rw [show Position.after (.origin ((some file).getD defaultName)) ['x'] _ = ⟨1, 2, file⟩ from rfl,
    hblanks]
  rfl

theorem diagnostics_farParen :
    (parse (farParen 65600) (some "a.lua")).diagnostics =
      [⟨.noExpression .rightParen ")", ⟨1, 65602, "a.lua"⟩⟩] := by
  rw [parse, scan_farParen]
  decide +kernel

theorem caretWidth_farParen (n : Nat) (problem : Problem) (column : UInt32) (file : String) :
    let d : Diagnostic := ⟨problem, ⟨1, column, file⟩⟩
    d.caretWidth (d.sourceLine (farParen n)) = max column.toNat 1 := by
  intro d
  have hline : ∀ c ∈ 'x' :: (List.replicate n ' ' ++ [')']), Lexeme.isLineEnd c = false := by
    intro c hc
    simp only [List.mem_cons, List.mem_append, List.mem_replicate, List.not_mem_nil, or_false] at hc
    rcases hc with rfl | ⟨-, rfl⟩ | rfl <;> rfl
  have hsplit : (farParen n).toList = 'x' :: (List.replicate n ' ' ++ [')']) ++ '\n' :: [] := by
    rw [farParen, String.toList_ofList]
    simp
  have hsource : d.sourceLine (farParen n) = 'x' :: (List.replicate n ' ' ++ [')']) := by
    rw [Diagnostic.sourceLine, Text.lineAt?, hsplit, Text.lines_feed hline]
    exact String.toList_ofList
  rw [hsource]
  change max (max column.toNat 1 - 0) 1 = _
  omega

/-- The one report of such a text is too wide, and the run ends in a panic where a report and the
exit code one were due. -/
theorem run_panics_of_wide_report :
    let o : Options := ⟨"a.lua", false, false, some "a.lua"⟩
    let content := Except.ok (farParen 65600).toUTF8.data.toList
    (parse (farParen 65600) o.name?).diagnostics =
        [⟨.noExpression .rightParen ")", ⟨1, 65602, "a.lua"⟩⟩] ∧
      o.run content = ⟨101, "", ""⟩ ∧
      (o.run content).exit ≠
        if (parse (farParen 65600) o.name?).diagnostics.isEmpty then 0 else 1 := by
  intro o content
  have hparse : (parse (farParen 65600) o.name?).diagnostics = [] ++ [_] := diagnostics_farParen
  have hwidth := caretWidth_farParen 65600 (.noExpression .rightParen ")") 65602 "a.lua"
  have hrun : o.run content = ⟨101, "", ""⟩ := by
    refine run_of_wide o hparse (List.forall_mem_nil _) ?_
    rw [hwidth]
    decide
  refine ⟨hparse, hrun, ?_⟩
  rw [hrun, hparse]
  decide

end LuaSyntax.Command
