import LuaSyntax.Proofs.EmbeddedProgram
import LuaSyntax.Proofs.Lines

/-! Sources one after the other. Where the first ends with a line end and leaves no block open,
the two are read independently of each other, whatever is wrong with either of them. -/

namespace LuaSyntax

theorem Parsed.move_id (p : Parsed) : p.move (fun q => q) = p := by
  have htoken : Token.move (fun q => q) = fun t => t := rfl
  have hdiagnostic : Diagnostic.move (fun q => q) = fun d => d := rfl
  have hstmt : Stmt.map (fun t : Token => t) = fun s => s := funext Stmt.map_id
  rw [Parsed.move, htoken, hdiagnostic, hstmt, List.map_id', List.map_id']

theorem Parsed.ofTokens_move (place : Position → Position) (s : Scanned) :
    ofScanned (s.move place) = (ofScanned s).move place := by
  have hembeds := ofTokens_embeds ⟨place, s.stop, place s.stop, []⟩ s.tokens
    (fun _ => .inl ⟨rfl, rfl⟩) fun hopen => absurd ⟨rfl, rfl⟩ hopen
  simp only [Embedding.tokens, List.append_nil, ofTokens_nil] at hembeds
  rw [ofScanned, ofScanned]
  refine hembeds.trans ?_
  simp [append_eq]

/-- Tokens that end a line and leave no block open are read before any others as on their own. -/
theorem Parsed.ofTokens_append_line {ts : List Token} (hline : EndsLine ts) (stop outer : Position)
    (hstop : ∀ d ∈ (ofTokens stop ts).diagnostics, d.position ≠ stop) (us : List Token) :
    ofTokens outer (ts ++ us) = ofTokens stop ts ++ ofTokens outer us := by
  have hembeds := ofTokens_embeds ⟨fun q => q, stop, outer, us⟩ ts (fun _ => .inr hline)
    fun _ => hstop
  have htokens : Embedding.tokens ⟨fun q => q, stop, outer, us⟩ ts = ts ++ us := by
    rw [Embedding.tokens, show Embedding.mark ⟨fun q => q, stop, outer, us⟩ = fun t => t from rfl,
      List.map_id']
  rw [htokens, move_id] at hembeds
  exact hembeds

/-- A source that ends with a line end and leaves no block open, before any other source. The
statements and diagnostics of the second follow those of the first, further down by as many lines
as the first has. -/
theorem parse_append (s₁ s₂ : String) (file : Option String)
    (hline : (tokenize (s₁ ++ "\n") file).dropLast.getLast?.map Token.kind = some .newline)
    (hclosed : ∀ d ∈ (parse (s₁ ++ "\n") file).diagnostics,
      d.position ≠ (scan (s₁ ++ "\n") file).stop) :
    parse (s₁ ++ "\n" ++ s₂) file =
      parse (s₁ ++ "\n") file ++
        (parse s₂ file).move (Position.down ((scan (s₁ ++ "\n") file).stop.line - 1)) := by
  have hfeed : (s₁ ++ "\n").toList.getLast? = some '\n' := by simp
  have hends : EndsLine (scanChars (s₁ ++ "\n").toList file).tokens := by
    rwa [dropLast_tokenize] at hline
  obtain ⟨htokens, hstop⟩ := scanChars_append (fun _ => lineEnded_of_getLast? hends hfeed)
    (not_continues_of_lineFeed hfeed s₂.toList) file
  have hwhole : parse (s₁ ++ "\n" ++ s₂) file =
      .ofScanned (scanChars ((s₁ ++ "\n").toList ++ s₂.toList) file) := by
    rw [← String.toList_append]
    rfl
  rw [hwhole, Parsed.ofScanned, htokens, Parsed.ofTokens_append_line hends _ _ hclosed, hstop]
  exact congrArg _ (Parsed.ofTokens_move _ _)

theorem parse_append_malformed :
    parse ("if x then y = = 1\n end )" ++ "\n" ++ "local z = 2\nlocal\n") none =
      parse ("if x then y = = 1\n end )" ++ "\n") none ++
        (parse "local z = 2\nlocal\n" none).move
          (Position.down ((scan ("if x then y = = 1\n end )" ++ "\n") none).stop.line - 1)) :=
  parse_append _ _ none (by decide +kernel) (by decide +kernel)

end LuaSyntax
