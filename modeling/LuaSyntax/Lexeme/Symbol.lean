import LuaSyntax.Token.Kind

/-! Symbols: operators and punctuation, the longest that fits. -/

namespace LuaSyntax.Lexeme

def symbol? : List Char → Option (Kind × List Char)
  | '.' :: '.' :: '.' :: cs => some (.vararg, cs)
  | '.' :: '.' :: cs => some (.concat, cs)
  | '.' :: cs => some (.dot, cs)
  | '<' :: '=' :: cs => some (.lessEqual, cs)
  | '<' :: '<' :: cs => some (.shiftLeft, cs)
  | '<' :: cs => some (.less, cs)
  | '>' :: '=' :: cs => some (.moreEqual, cs)
  | '>' :: '>' :: cs => some (.shiftRight, cs)
  | '>' :: cs => some (.more, cs)
  | '=' :: '=' :: cs => some (.equal, cs)
  | '=' :: cs => some (.assign, cs)
  | '/' :: '/' :: cs => some (.floorSlash, cs)
  | '/' :: cs => some (.slash, cs)
  | ':' :: ':' :: cs => some (.label, cs)
  | ':' :: cs => some (.colon, cs)
  | '~' :: '=' :: cs => some (.notEqual, cs)
  | '~' :: cs => some (.tilde, cs)
  | '+' :: cs => some (.plus, cs)
  | '-' :: cs => some (.minus, cs)
  | '*' :: cs => some (.star, cs)
  | '%' :: cs => some (.percent, cs)
  | '^' :: cs => some (.caret, cs)
  | '#' :: cs => some (.hash, cs)
  | '&' :: cs => some (.ampersand, cs)
  | '|' :: cs => some (.bar, cs)
  | '(' :: cs => some (.leftParen, cs)
  | ')' :: cs => some (.rightParen, cs)
  | '\x7b' :: cs => some (.leftBrace, cs)
  | '\x7d' :: cs => some (.rightBrace, cs)
  | '[' :: cs => some (.leftBracket, cs)
  | ']' :: cs => some (.rightBracket, cs)
  | ';' :: cs => some (.semicolon, cs)
  | ',' :: cs => some (.comma, cs)
  | _ => none

def single? : Char → Option Kind
  | '.' => some .dot
  | '<' => some .less
  | '>' => some .more
  | '=' => some .assign
  | '/' => some .slash
  | ':' => some .colon
  | '~' => some .tilde
  | '+' => some .plus
  | '-' => some .minus
  | '*' => some .star
  | '%' => some .percent
  | '^' => some .caret
  | '#' => some .hash
  | '&' => some .ampersand
  | '|' => some .bar
  | '(' => some .leftParen
  | ')' => some .rightParen
  | '\x7b' => some .leftBrace
  | '\x7d' => some .rightBrace
  | '[' => some .leftBracket
  | ']' => some .rightBracket
  | ';' => some .semicolon
  | ',' => some .comma
  | _ => none

/-- The symbol that a character behind `k` makes of it. -/
def longer? : Kind → Char → Option Kind
  | .dot, '.' => some .concat
  | .concat, '.' => some .vararg
  | .less, '=' => some .lessEqual
  | .less, '<' => some .shiftLeft
  | .more, '=' => some .moreEqual
  | .more, '>' => some .shiftRight
  | .assign, '=' => some .equal
  | .slash, '/' => some .floorSlash
  | .colon, ':' => some .label
  | .tilde, '=' => some .notEqual
  | _, _ => none

def longest (k : Kind) : List Char → Kind × List Char
  | [] => (k, [])
  | c :: cs =>
    match longer? k c with
    | some k' => longest k' cs
    | none => (k, c :: cs)

theorem text_single? {k : Kind} {c : Char} (h : single? c = some k) : k.text.toList = [c] := by
  unfold single? at h
  split at h <;> cases h <;> rfl

theorem text_longer? {k k' : Kind} {c : Char} (h : longer? k c = some k') :
    k'.text.toList = k.text.toList ++ [c] := by
  unfold longer? at h
  split at h <;> cases h <;> rfl

theorem longest_eq {k : Kind} {cs : List Char} (h : ∀ d ds, cs = d :: ds → longer? k d = none) :
    longest k cs = (k, cs) := by
  cases cs with
  | nil => rfl
  | cons c cs => rw [longest, h c cs rfl]

theorem single?_eq_none {c : Char} {cs : List Char} (h : symbol? (c :: cs) = none) :
    single? c = none := by
  unfold symbol? at h
  split at h <;> try cases h
  unfold single?
  split <;> first | rfl | (exfalso; solve_by_elim)

/-- A symbol can be read one character at a time. -/
theorem symbol?_cons (c : Char) (cs : List Char) :
    symbol? (c :: cs) = (single? c).map (longest · cs) := by
  cases h : symbol? (c :: cs) with
  | none => rw [single?_eq_none h, Option.map_none]
  | some r =>
    unfold symbol? at h
    split at h <;> cases h
    all_goals
      next hcs =>
      obtain ⟨rfl, rfl⟩ := List.cons.inj hcs
      simp only [single?, longest, longer?, Option.map_some]
      rw [longest_eq]
      intro d ds hd
      unfold longer?
      split <;> simp_all

theorem symbol?_append {cs rest : List Char} {k : Kind} (h : symbol? cs = some (k, rest)) :
    k.text.toList ++ rest = cs := by
  unfold symbol? at h
  split at h <;> simp only [Option.some.injEq, Prod.mk.injEq, reduceCtorEq] at h
  all_goals
    obtain ⟨rfl, rfl⟩ := h
    rfl

theorem mem_symbols_of_symbol? {cs rest : List Char} {k : Kind}
    (h : symbol? cs = some (k, rest)) : k ∈ Kind.symbols := by
  unfold symbol? at h
  split at h <;> simp only [Option.some.injEq, Prod.mk.injEq, reduceCtorEq] at h
  all_goals
    obtain ⟨rfl, -⟩ := h
    decide

end LuaSyntax.Lexeme
