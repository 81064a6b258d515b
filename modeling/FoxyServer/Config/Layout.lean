import FoxyServer.Config.Correct
import FoxyServer.Config.Spelling

/-!
This module contains config files taken apart into their tokens and the blanks around them. Every text on
which the lexer reports no error has such a layout, and the layout determines the token stream.
-/

namespace Foxy

namespace NginxConfigParser

/--
The blanks in front, the tokens with the blanks behind each of them, and what the end of the file cuts
off. The end of a comment's line is the first of the blanks behind it.
-/
structure Layout where
  lead : Bytes
  units : List (Token × Bytes)
  tail : Bytes

namespace Layout

def body (tail : Bytes) : List (Token × Bytes) → Bytes
  | [] => tail
  | (token, run) :: units => token.2 ++ (run ++ body tail units)

def text (layout : Layout) : Bytes :=
  layout.lead ++ body layout.tail layout.units

def tokens (layout : Layout) : List Token :=
  layout.units.map (·.1)

structure Gap (token : Token) (run : Bytes) : Prop where
  blank : ∀ c ∈ run, Blank c
  comment : token.1 = .comment → ∃ c ∈ run.head?, LineEnd c

inductive Fits (tail : Bytes) : List (Token × Bytes) → Prop where
  | nil (htail : Unfinished tail) : Fits tail []
  | cons {units : List (Token × Bytes)} (hspells : Spells token piece) (hgap : Gap token run)
    (hends : Ends token (run ++ body tail units)) (hrest : Fits tail units)
    : Fits tail ((token, run) :: units)

structure Of (layout : Layout) (input : Bytes) : Prop where
  lead : ∀ c ∈ layout.lead, Blank c
  units : Fits layout.tail layout.units
  text : layout.text = input

end Layout

/-! ## The tokens of a layout -/

theorem LineEnd.blank {c : UInt8} (h : LineEnd c) : Blank c := by
  rcases h with rfl | rfl
  . exact .inr (.inr (.inl rfl))
  . exact .inr (.inr (.inr rfl))

theorem tokens_unit {token : Token} {piece run : Bytes} (hspells : Spells token piece)
    (hgap : Layout.Gap token run) {rest : Bytes} (hends : Ends token (run ++ rest))
    : tokens (token.2 ++ (run ++ rest)) = token :: tokens rest := by
  have hrest := tokens_blanks hgap.blank rest
  cases hspells with
  | startBlock => exact (tokens_spells .startBlock hends).trans (congrArg _ hrest)
  | endBlock => exact (tokens_spells .endBlock hends).trans (congrArg _ hrest)
  | statementEnd => exact (tokens_spells .statementEnd hends).trans (congrArg _ hrest)
  | normal hlex => exact (tokens_spells (.normal hlex) hends).trans (congrArg _ hrest)
  | @comment body c hbody hend =>
    rcases hgap.comment rfl with ⟨c, hhead, hc⟩
    rw [Option.mem_def, List.head?_eq_some_iff] at hhead
    rcases hhead with ⟨run, rfl⟩
    have hread := @tokens_spells _ _ (run ++ rest) (.comment hbody hc)
      (fun hbare => absurd rfl (hbare.2.2 _ rfl).2.1)
    rw [tokens_blanks (List.forall_mem_cons.mp hgap.blank).2] at hread
    simpa using hread

theorem Layout.Fits.tokens {tail : Bytes} {units : List (Token × Bytes)} (h : Fits tail units)
    : NginxConfigParser.tokens (body tail units) = units.map (·.1) ++ [(.eof, tail)] := by
  induction h with
  | nil htail => exact tokens_unfinished htail
  | cons hspells hgap hends hrest ih => rw [body, tokens_unit hspells hgap hends, ih]; rfl

theorem Layout.Fits.unfinished {tail : Bytes} {units : List (Token × Bytes)} (h : Fits tail units)
    : Unfinished tail := by
  induction h with
  | nil htail => exact htail
  | cons hspells hgap hends hrest ih => exact ih

theorem Layout.Of.tokens {layout : Layout} {input : Bytes} (h : layout.Of input)
    : NginxConfigParser.tokens input = layout.tokens ++ [(.eof, layout.tail)] := by
  rw [← h.text, Layout.text, tokens_blanks h.lead, h.units.tokens]
  rfl

/-! ## Every text has a layout -/

theorem layout_blanks {input run : Bytes} (hrun : ∀ c ∈ run, Blank c) (h : ∃ layout : Layout, layout.Of input)
    : ∃ layout : Layout, layout.Of (run ++ input) := by
  rcases h with ⟨⟨lead, units, tail⟩, hlead, hunits, rfl⟩
  refine ⟨⟨run ++ lead, units, tail⟩, ?_, hunits, by simp [Layout.text]⟩
  intro c hc
  rcases List.mem_append.mp hc with hc | hc
  . exact hrun c hc
  . exact hlead c hc

theorem layout_token {token : Token} {piece rest : Bytes} (hspells : Spells token piece)
    (hends : Ends token rest) (h : ∃ layout : Layout, layout.Of rest)
    : ∃ layout : Layout, layout.Of (piece ++ rest) := by
  rcases h with ⟨⟨lead, units, tail⟩, hlead, hunits, rfl⟩
  have hfits (run : Bytes) (hgap : Layout.Gap token run) (hends : Ends token (run ++ Layout.body tail units))
      (heq : token.2 ++ run = piece ++ lead)
      : ∃ layout : Layout, layout.Of (piece ++ Layout.text ⟨lead, units, tail⟩) := by
    refine ⟨⟨[], (token, run) :: units, tail⟩, by simp, .cons hspells hgap hends hunits, ?_⟩
    rw [Layout.text, Layout.text, Layout.body, List.nil_append, ← List.append_assoc, heq,
      List.append_assoc]
  cases hspells with
  | startBlock | endBlock | statementEnd | normal => exact hfits lead ⟨hlead, by simp⟩ hends rfl
  | @comment body c hbody hend =>
    refine hfits (c :: lead) ⟨List.forall_mem_cons.mpr ⟨hend.blank, hlead⟩, fun _ => ⟨c, rfl, hend⟩⟩ ?_ ?_
    . exact fun hbare => absurd rfl (hbare.2.2 _ rfl).2.1
    . simp

theorem exists_layout (input : Bytes) : NoError (tokens input) → ∃ layout : Layout, layout.Of input := by
  induction input using input_induction with
  | unfinished text htext =>
    intro _
    exact ⟨⟨[], [], text⟩, by simp, .nil htext, rfl⟩
  | unclosed text htext =>
    intro herror
    rw [tokens_unclosed htext, noError_cons_iff] at herror
    exact absurd rfl herror.1
  | token tok text rest hspells hends ih =>
    intro herror
    rw [tokens_spells hspells hends, noError_cons_iff] at herror
    exact layout_token hspells hends (ih herror.2)
  | blanks run text hrun ih =>
    intro herror
    rw [tokens_blanks hrun] at herror
    exact layout_blanks hrun (ih herror)

end NginxConfigParser

end Foxy
