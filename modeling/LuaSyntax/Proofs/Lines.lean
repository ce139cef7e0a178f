import LuaSyntax.Proofs.Lookahead
import LuaSyntax.Proofs.Embedding

/-! The places of lexemes, line by line. A text that follows a line end has its tokens where they
would be on their own, some lines further down. -/

namespace LuaSyntax

namespace Position

def down (k : UInt32) (p : Position) : Position := { p with line := p.line + k }

theorem step_down (k : UInt32) (p : Position) (c : Char) (next : Option Char) :
    (p.down k).step c next = (p.step c next).down k := by
  unfold step
  split
  · simp only [down, Position.mk.injEq, and_true]
    ac_rfl
  · rfl

theorem after_down (k : UInt32) (p : Position) (text : List Char) (next : Option Char) :
    (p.down k).after text next = (p.after text next).down k := by
  induction text generalizing p with
  | nil => rfl
  | cons c cs ih => rw [after, after, step_down, ih]

theorem down_origin {p : Position} {file : String} (hcolumn : p.column = 1)
    (hfile : p.file = file) : (origin file).down (p.line - 1) = p := by
  obtain ⟨line, column, name⟩ := p
  subst hcolumn hfile
  simp only [origin, down, Position.mk.injEq, and_true]
  rw [UInt32.add_comm, UInt32.sub_add_cancel]

theorem after_newline {text : List Char}
    (h : text = ['\n'] ∨ text = ['\r'] ∨ text = ['\r', '\n']) (p : Position) {next : Option Char}
    (hnext : ¬(text = ['\r'] ∧ next = some '\n')) :
    p.after text next = ⟨p.line + 1, 1, p.file⟩ := by
  rcases h with rfl | rfl | rfl
  · rfl
  · have hne : next ≠ some '\n' := fun hn => hnext ⟨rfl, hn⟩
    simp [after, step, breaksLine, hne]
  · rfl

end Position

namespace Scanned

def move (place : Position → Position) (s : Scanned) : Scanned :=
  ⟨s.tokens.map (Token.move place), place s.stop⟩

theorem ofLexemes_down (k : UInt32) (p : Position) (ls : List Lexeme) :
    ofLexemes (p.down k) ls = (ofLexemes p ls).move (Position.down k) := by
  induction ls generalizing p with
  | nil => rfl
  | cons l ls ih =>
    simp only [ofLexemes, Position.after_down, ih]
    cases l.kind <;> rfl

theorem map_content_ofLexemes (p : Position) (ls : List Lexeme) :
    (ofLexemes p ls).tokens.map Token.content =
      ls.filterMap fun l => l.kind.map fun k => (l.token k p p).content := by
  induction ls generalizing p with
  | nil => rfl
  | cons l ls ih =>
    rw [ofLexemes]
    cases hk : l.kind with
    | none => simp [hk, ih, Token.content, Lexeme.token]
    | some k => simp [hk, ih, Token.content, Lexeme.token]

theorem map_kind_ofLexemes (p : Position) (ls : List Lexeme) :
    (ofLexemes p ls).tokens.map Token.kind = ls.filterMap Lexeme.kind := by
  have hkinds := congrArg (List.map Prod.fst) (map_content_ofLexemes p ls)
  rw [List.map_map, List.map_filterMap] at hkinds
  simpa [Function.comp_def, Token.content, Lexeme.token] using hkinds

def placeAfter (p : Position) (l : Lexeme) (ls : List Lexeme) : Position :=
  p.after l.text (ls.head?.bind (·.text.head?))

theorem tokens_cons (p : Position) (l : Lexeme) (ls : List Lexeme) :
    (ofLexemes p (l :: ls)).tokens =
      (l.kind.map fun k => l.token k p (placeAfter p l ls)).toList ++
        (ofLexemes (placeAfter p l ls) ls).tokens := by
  rw [ofLexemes]
  cases l.kind <;> rfl

theorem stop_cons (p : Position) (l : Lexeme) (ls : List Lexeme) :
    (ofLexemes p (l :: ls)).stop = (ofLexemes (placeAfter p l ls) ls).stop := by
  rw [ofLexemes]
  cases l.kind <;> rfl

theorem ofLexemes_append {front : List Lexeme} (hend : LineEnded front)
    (hfront : ∀ l ∈ front, l.kind = some .newline →
      l.text = ['\n'] ∨ l.text = ['\r'] ∨ l.text = ['\r', '\n'])
    {ds : List Char} (hds : ¬Continues front ds) (p : Position) :
    (ofLexemes p front).stop.column = 1 ∧ (ofLexemes p front).stop.file = p.file ∧
      (ofLexemes p (front ++ lexemes ds)).tokens =
        (ofLexemes p front).tokens ++ (ofLexemes (ofLexemes p front).stop (lexemes ds)).tokens ∧
      (ofLexemes p (front ++ lexemes ds)).stop =
        (ofLexemes (ofLexemes p front).stop (lexemes ds)).stop := by
  induction front generalizing p with
  | nil => cases hend
  | cons l front ih =>
    rw [List.cons_append, tokens_cons, tokens_cons, stop_cons, stop_cons]
    cases front with
    | nil =>
      have hkind : l.kind = some .newline := hend
      have htext := hfront l (List.mem_singleton_self l) hkind
      have hlast : placeAfter p l [] = ⟨p.line + 1, 1, p.file⟩ :=
        Position.after_newline htext p (by simp)
      have hplace : placeAfter p l ([] ++ lexemes ds) = ⟨p.line + 1, 1, p.file⟩ := by
        rw [placeAfter, List.nil_append, head?_lexemes]
        exact Position.after_newline htext p fun h => hds ⟨congrArg some h.1, h.2⟩
      rw [hlast, hplace, ofLexemes, List.append_nil]
      exact ⟨rfl, rfl, rfl, rfl⟩
    | cons l' front =>
      have hmore := ih hend (fun k hk => hfront k (List.mem_cons_of_mem l hk)) hds
        (placeAfter p l (l' :: front))
      obtain ⟨hcolumn, hfile, htokens, hstop⟩ := hmore
      have hplace : placeAfter p l (l' :: front ++ lexemes ds) = placeAfter p l (l' :: front) := rfl
      rw [hplace, htokens, hstop, List.append_assoc]
      exact ⟨hcolumn, hfile.trans (Position.after_file _ _ _), rfl, rfl⟩

end Scanned

/-- Two texts in a row, the first of which ends with a line end that the second does not continue.
The second is where it would be on its own, as many lines further down as the first has. -/
theorem scanChars_append {cs : List Char} (hend : cs ≠ [] → LineEnded (lexemes cs)) {ds : List Char}
    (hds : ¬Continues (lexemes cs) ds) (file : Option String) :
    (scanChars (cs ++ ds) file).tokens =
        (scanChars cs file).tokens ++ ((scanChars ds file).move
          (Position.down ((scanChars cs file).stop.line - 1))).tokens ∧
      (scanChars (cs ++ ds) file).stop =
        ((scanChars ds file).move (Position.down ((scanChars cs file).stop.line - 1))).stop := by
  by_cases hcs : cs = []
  · subst hcs
    have hempty : scanChars [] file = ⟨[], .origin (file.getD defaultName)⟩ := by
      simp [scanChars, Scanned.ofLexemes]
    have hmove : scanChars ds file = (scanChars ds file).move (Position.down (1 - 1)) :=
      Scanned.ofLexemes_down 0 (.origin (file.getD defaultName)) (lexemes ds)
    rw [hempty, List.nil_append, List.nil_append]
    exact ⟨congrArg Scanned.tokens hmove, congrArg Scanned.stop hmove⟩
  unfold scanChars
  obtain ⟨hcolumn, hfile, htokens, hstop⟩ := Scanned.ofLexemes_append (hend hcs)
    (fun l hl hk => text_of_newline hl hk) hds (.origin (file.getD defaultName))
  have horigin : Position.down _ (.origin (file.getD defaultName)) = _ :=
    Position.down_origin hcolumn hfile
  rw [lexemes_append (hend hcs) hds, htokens, hstop, ← Scanned.ofLexemes_down, horigin]
  exact ⟨rfl, rfl⟩

theorem getLast?_text_lexemes {cs : List Char} {front : List Lexeme} {l : Lexeme}
    (h : lexemes cs = front ++ [l]) : l.text.getLast? = cs.getLast? := by
  have hmem : l ∈ lexemes cs := by simp [h]
  obtain ⟨c, ds, rfl⟩ := exists_first_of_mem hmem
  have htext := flatMap_text_lexemes cs
  rw [h, List.flatMap_append, List.flatMap_singleton] at htext
  obtain ⟨d, es, hcons⟩ := List.exists_cons_of_ne_nil (Lexeme.first_text_ne_nil c ds)
  rw [← htext, hcons, List.getLast?_append, List.getLast?_cons, Option.some_or]

theorem lineEnded_of_getLast? {cs : List Char} {file : Option String}
    (hlast : EndsLine (scanChars cs file).tokens) (hfeed : cs.getLast? = some '\n') :
    LineEnded (lexemes cs) := by
  have hkinds : ((lexemes cs).filterMap Lexeme.kind).getLast? = some .newline := by
    rw [← Scanned.map_kind_ofLexemes (.origin (file.getD defaultName)), List.getLast?_map]
    exact hlast
  cases hls : (lexemes cs).getLast? with
  | none =>
    rw [List.getLast?_eq_none_iff] at hls
    rw [hls] at hkinds
    cases hkinds
  | some l =>
    obtain ⟨front, hfront⟩ := List.getLast?_eq_some_iff.1 hls
    rw [LineEnded, hls, Option.bind_some]
    cases hk : l.kind with
    | some k => simpa [hfront, hk] using hkinds
    | none =>
      -- blanks and comments do not end with a line feed, but the text does
      exfalso
      have htext := getLast?_text_lexemes hfront
      obtain ⟨c, ds, rfl⟩ := exists_first_of_mem (List.mem_of_getLast? hls)
      exact getLast?_of_kind_none hk (htext.trans hfeed)

theorem not_continues_of_lineFeed {cs : List Char} (hfeed : cs.getLast? = some '\n')
    (ds : List Char) : ¬Continues (lexemes cs) ds := by
  rintro ⟨hreturn, -⟩
  obtain ⟨l, hl, htext⟩ := Option.map_eq_some_iff.1 hreturn
  obtain ⟨front, hfront⟩ := List.getLast?_eq_some_iff.1 hl
  have hlast := getLast?_text_lexemes hfront
  rw [htext, hfeed] at hlast
  exact absurd hlast (by decide)

/-- The place between `cs` and `ds` in the text of both is the start of a line: either it is the
start of the text, or a line end of the text ends there. -/
def LineCut (cs ds : List Char) : Prop :=
  ∃ front back, lexemes (cs ++ ds) = front ++ back ∧ front.flatMap Lexeme.text = cs ∧
    (front = [] ∨ LineEnded front)

theorem LineCut.lineEnded {cs ds : List Char} (h : LineCut cs ds) :
    (cs ≠ [] → LineEnded (lexemes cs)) ∧ ¬Continues (lexemes cs) ds := by
  obtain ⟨front, back, hlexemes, rfl, rfl | hend⟩ := h
  · exact ⟨fun hne => absurd rfl hne, by simp [Continues]⟩
  have hnil : ¬Continues front [] := by simp [Continues]
  have hfront : lexemes (front.flatMap Lexeme.text) = front := by
    simpa using lexemes_front hend hlexemes hnil
  rw [hfront]
  refine ⟨fun _ => hend, ?_⟩
  rintro ⟨hlast, hhead⟩
  -- the carriage return would have been read together with the line feed
  obtain ⟨l, hl, htext⟩ := Option.map_eq_some_iff.1 hlast
  obtain ⟨front, rfl⟩ := List.getLast?_eq_some_iff.1 hl
  obtain ⟨ds, rfl⟩ := List.head?_eq_some_iff.1 hhead
  simp only [List.flatMap_append, List.flatMap_singleton, List.append_assoc, htext] at hlexemes
  have hread := lexemes_behind hlexemes
  rw [List.cons_append, lexemes_cons] at hread
  have hlexeme : ['\r', '\n'] = l.text := congrArg Lexeme.text (List.cons.inj hread).1
  rw [htext] at hlexeme
  cases hlexeme

theorem endsLine_of_lineEnded {cs : List Char} (h : LineEnded (lexemes cs)) (file : Option String) :
    EndsLine (scanChars cs file).tokens := by
  obtain ⟨l, hlast, hl⟩ := Option.bind_eq_some_iff.1 h
  obtain ⟨front, hfront⟩ := List.getLast?_eq_some_iff.1 hlast
  rw [EndsLine, ← List.getLast?_map, scanChars, Scanned.map_kind_ofLexemes, hfront]
  simp [hl]

theorem LineCut.endsLine {cs ds : List Char} (h : LineCut cs ds) (file : Option String) :
    (scanChars cs file).tokens = [] ∨ EndsLine (scanChars cs file).tokens := by
  by_cases hcs : cs = []
  · subst hcs
    exact .inl (by simp [scanChars, Scanned.ofLexemes])
  · exact .inr (endsLine_of_lineEnded (h.lineEnded.1 hcs) file)

theorem eq_nil_of_continues {ls : List Lexeme} {cs ds : List Char} (h : Continues ls (cs ++ ds))
    (hcs : ∀ c ∈ cs, c ≠ '\n') : cs = [] := by
  cases cs with
  | nil => rfl
  | cons c cs => exact absurd (Option.some.inj h.2) (hcs c List.mem_cons_self)

/-- A text put between two others at the start of a line. Behind it the tokens are the same, some
lines further down. -/
theorem scanChars_insert {cs ds es : List Char} (hcut : LineCut cs ds)
    (hend : LineEnded (lexemes es)) (hes : ¬Continues (lexemes cs) (es ++ ds))
    (hds : ¬Continues (lexemes es) ds) (file : Option String) :
    ∃ bs bs', (scanChars (cs ++ ds) file).tokens = (scanChars cs file).tokens ++ bs ∧
      (scanChars (cs ++ (es ++ ds)) file).tokens = (scanChars cs file).tokens ++
        ((scanChars es file).tokens.map
          (Token.move (Position.down ((scanChars cs file).stop.line - 1))) ++ bs') ∧
      bs'.map Token.content = bs.map Token.content := by
  obtain ⟨hcs, hplain⟩ := hcut.lineEnded
  have hwhole := (scanChars_append hcs hes file).1
  rw [Scanned.move, (scanChars_append (fun _ => hend) hds file).1, List.map_append] at hwhole
  refine ⟨_, _, (scanChars_append hcs hplain file).1, hwhole, ?_⟩
  rw [map_content_move, Scanned.move, Scanned.move, map_content_move, map_content_move]

theorem Scanned.ofLexemes_replace {l l' : Lexeme} {back : List Lexeme} (hl : l.kind = some .newline)
    (hl' : l'.kind = some .newline) (hhead : l.text.head? = l'.text.head?)
    (hplace : ∀ p, placeAfter p l back = placeAfter p l' back) (front : List Lexeme)
    (p : Position) : ofLexemes p (front ++ l :: back) = ofLexemes p (front ++ l' :: back) := by
  induction front generalizing p with
  | nil =>
    have hstop := hplace p
    simp only [placeAfter] at hstop
    simp only [List.nil_append, ofLexemes, hl, hl', hstop, Lexeme.token, if_true]
  | cons k front ih =>
    have hnext : (front ++ l :: back).head?.bind (·.text.head?) =
        (front ++ l' :: back).head?.bind (·.text.head?) := by
      cases front <;> simp [hhead]
    simp only [List.cons_append, ofLexemes, hnext, ih]

theorem scanChars_continued {cs ds : List Char} (h : LineCut cs ds)
    (hcontinued : Continues (lexemes cs) ['\n']) (file : Option String) :
    scanChars (cs ++ '\n' :: ds) file = scanChars (cs ++ ds) file := by
  obtain ⟨hend, hds⟩ := h.lineEnded
  obtain ⟨l, hl, htext⟩ := Option.map_eq_some_iff.1 hcontinued.1
  obtain ⟨front, hfront⟩ := List.getLast?_eq_some_iff.1 hl
  have hcs : cs ≠ [] := by
    rintro rfl
    simp at hl
  have hkind : l.kind = some .newline := by simpa [LineEnded, hl] using hend hcs
  have hplain := lexemes_append (hend hcs) hds
  have hwhole : cs = front.flatMap Lexeme.text ++ ['\r'] := by
    have hself := flatMap_text_lexemes cs
    rw [hfront, List.flatMap_append, List.flatMap_singleton, htext] at hself
    exact hself.symm
  have hcut : lexemes (front.flatMap Lexeme.text ++ '\r' :: ds) = front ++ l :: lexemes ds := by
    rw [hfront, hwhole] at hplain
    simpa using hplain
  have hlonger : lexemes ('\r' :: '\n' :: ds) = ⟨some .newline, ['\r', '\n']⟩ :: lexemes ds :=
    lexemes_cons _ _
  have hfed := lexemes_before hcut ('\n' :: ds)
  rw [hlonger] at hfed
  have hne : ds.head? ≠ some '\n' := fun hn => hds ⟨hcontinued.1, hn⟩
  simp only [scanChars, hwhole, List.append_assoc, List.singleton_append, hcut, hfed]
  refine Scanned.ofLexemes_replace rfl hkind (by simp [htext]) ?_ front _
  intro p
  rw [Scanned.placeAfter, Scanned.placeAfter, htext, head?_lexemes,
    Position.after_newline (.inr (.inl rfl)) p (fun hn => hne hn.2)]
  rfl

end LuaSyntax
