import ScriptBundler.Proofs.PrintedStatements
import ScriptBundler.Proofs.Exactness

/-!
# Printing and parsing

A program that was parsed is parsed again from what is printed for it, up to
the spans of its nodes, and so it is printed as the same text again.  The trees
that a source is parsed to are well-formed; what is printed for a well-formed
tree falls apart into the words it was put together from; and these words spell
the tree.
-/

namespace ScriptBundler

namespace Program

open Grammar Grammar.Stream

theorem formed_of_ofSource {source : String} {p : Program} (h : ofSource source = .ok p)
    (hregex : ∀ n ∈ p.nodes, n.isRegex = false) : Formed .script (.stmts .top [] p) := by
  obtain ⟨j, hspells, -⟩ := spells_of_ofSource h
  have hcs : (stream source).placed.Holds (Lexeme.lexemes source.toList) := holds_lex source _
  refine hspells.formed (Texts.covers_script hcs) fun n hn hn' => ?_
  exact absurd (hregex n hn) (by rw [hn']; exact nofun)

theorem prints_stream {p : Program} (h : Formed .script (.stmts .top [] p)) :
    ∃ j, (stream p.print).Prints (Stmt.listPieces p) 0 j ∧ (stream p.print).Flush j ∧
      (stream p.print).kindAt j = .endOfInput := by
  obtain ⟨edge, -, hwalks⟩ : ∃ edge ∈ [Edge.settled], Piece.Walks .settled _ edge :=
    h.walks .settled (List.mem_singleton.mpr rfl)
  have hls : (stream p.print).Holds (Lexeme.lexemes p.print.toList) := holds_lex p.print _
  have hlays : Piece.Lays ((Stmt.listPieces p).flatMap Piece.marks)
      (Lexeme.lexemes p.print.toList) := by
    rw [print, Piece.render, String.toList_ofList]
    exact hwalks.lays
  obtain ⟨j, hprints, hblanks⟩ := Laid.of_lays hls hlays List.drop_zero (Nat.zero_le _)
  exact ⟨j, hprints, .of_blanks hblanks (by rw [hls.size]; exact Nat.lt_succ_self _)
    hls.trivium?_end, hls.kindAt_end hblanks⟩

/-- Well-formed programs are parsed from what is printed for them. -/
theorem ofSource_print {p : Program} (h : Formed .script (.stmts .top [] p)) :
    ∃ q, ofSource p.print = .ok q ∧ q.bare = p.bare := by
  obtain ⟨j, hprints, hflush, hend⟩ := prints_stream h
  have hended : (stream p.print).Ended := (holds_lex p.print _).ended
  have hspells : Spells (stream p.print).reading (.stmts .top [] p) 0 j :=
    h.readsBack hended 0 j hprints hflush ⟨.inl hend, nofun⟩
  exact ofSource_of_derives rfl hspells hend

/-- What is printed for a parsed program without regular expressions is parsed
to the same program, but for the spans, and printed as the same text. -/
theorem parse_print {source : String} {p : Program} (h : ofSource source = .ok p)
    (hregex : ∀ n ∈ p.nodes, n.isRegex = false) :
    ∃ q, ofSource p.print = .ok q ∧ q.bare = p.bare ∧ q.print = p.print := by
  obtain ⟨q, hq, hbare⟩ := ofSource_print (formed_of_ofSource h hregex)
  exact ⟨q, hq, hbare, print_eq_of_bare hbare⟩

/-- Two signs are kept apart, a comment is left out. -/
theorem parse_print_signs :
    ∃ p q : Program, ofSource "a = - -b // c" = .ok p ∧ p.print = "a=- -b;" ∧
      ofSource "a=- -b;" = .ok q ∧ q.bare = p.bare ∧ q.print = p.print := by
  have hrun : (ofSource "a = - -b // c").toOption.any
      (fun p => decide (∀ n ∈ p.nodes, n.isRegex = false) && p.print == "a=- -b;") = true := by
    decide +kernel
  obtain ⟨p, hsource, hrun⟩ := exists_ok_of_any hrun
  rw [Bool.and_eq_true, decide_eq_true_eq, beq_iff_eq] at hrun
  obtain ⟨q, hq, hbare, hprint⟩ := parse_print hsource hrun.1
  exact ⟨p, q, hsource, hrun.2, hrun.2 ▸ hq, hbare, hprint⟩

end Program
end ScriptBundler
