import FoxyServer.Config.Layout

/-!
This module contains the account of the text of an accepted config file: what of it is a token of the tree
or one of the marks that shaped it, and what the parser passes over.
-/

namespace Foxy

namespace NginxConfigParser

/-- The text consists of the terminals in order, with blanks and comments between them. -/
inductive Covers : Bytes → List Terminal → Prop where
  | nil : Covers [] []
  | blank (hblank : Blank c) (hrest : Covers text ts) : Covers (c :: text) ts
  | comment (hbody : ∀ c ∈ body, ¬LineEnd c) (hend : ∀ c ∈ text.head?, LineEnd c)
    (hrest : Covers text ts) : Covers ('#'.toUInt8 :: (body ++ text)) ts
  | terminal (hspells : Spells token piece) (ht : terminal? token = some t)
    (hend : Bare token.2 → ∀ c ∈ text.head?, Delimiter c) (hrest : Covers text ts)
    : Covers (piece ++ text) (t :: ts)

def LacksTerminator (input : Bytes) : Prop :=
  ∃ ts value, Covers input (ts ++ [.normal value])

/-- No byte of the text is ignored, except in blanks and comments, and no statement lacks its end. -/
def NothingIgnored (input : Bytes) (config : NginxConfig) : Prop :=
  (∃ ts, Covers input ts ∧ Derives ts config) ∧ ¬LacksTerminator input

def EndsInBare (input : Bytes) : Prop :=
  ∃ layout : Layout, layout.Of input ∧ Bare layout.tail

/-! ## What covers a text -/

theorem covers_blanks {run text : Bytes} {ts : List Terminal} (hrun : ∀ c ∈ run, Blank c)
    (h : Covers text ts) : Covers (run ++ text) ts := by
  induction run with
  | nil => exact h
  | cons c run ih =>
    rw [List.forall_mem_cons] at hrun
    exact .blank hrun.1 (ih hrun.2)

theorem covers_unfinished {tail : Bytes} (htail : Unfinished tail) (hbare : ¬Bare tail)
    : Covers tail [] := by
  cases htail with
  | nothing => exact .nil
  | bare h => exact absurd h hbare
  | @comment body hbody =>
    have hcovers := @Covers.comment body [] [] hbody (by simp) .nil
    rwa [List.append_nil] at hcovers

theorem covers_unit {token : Token} {piece run text : Bytes} {ts : List Terminal}
    (hspells : Spells token piece) (hgap : Layout.Gap token run) (hends : Ends token (run ++ text))
    (h : Covers text ts) : Covers (token.2 ++ (run ++ text)) (terminals [token] ++ ts) := by
  have hrest := covers_blanks hgap.blank h
  have hend : Bare token.2 → ∀ c ∈ (run ++ text).head?, Delimiter c := by
    intro hbare c hc
    rcases hends hbare with ⟨d, hd, hdelim⟩
    rw [Option.mem_unique hc hd]
    exact hdelim
  cases hspells with
  | startBlock => exact .terminal .startBlock rfl hend hrest
  | endBlock => exact .terminal .endBlock rfl hend hrest
  | statementEnd => exact .terminal .statementEnd rfl hend hrest
  | normal hlex => exact .terminal (.normal hlex) rfl hend hrest
  | comment hbody hc =>
    refine .comment hbody ?_ hrest
    rcases hgap.comment rfl with ⟨d, hhead, hd⟩
    intro c hc
    rw [Option.mem_def, List.head?_append, Option.mem_def.mp hhead, Option.some_or, Option.some.injEq] at hc
    exact hc ▸ hd

theorem covers_fits {tail : Bytes} {units : List (Token × Bytes)} {ts : List Terminal}
    (h : Layout.Fits tail units) (htail : Covers tail ts)
    : Covers (Layout.body tail units) (terminals (units.map (·.1)) ++ ts) := by
  induction h with
  | nil => exact htail
  | @cons token piece run units hspells hgap hends hrest ih =>
    rw [List.map_cons, terminals_cons, List.append_assoc]
    exact covers_unit hspells hgap hends ih

theorem Layout.Of.covers {layout : Layout} {input : Bytes} {ts : List Terminal} (h : layout.Of input)
    (htail : Covers layout.tail ts) : Covers input (terminals layout.tokens ++ ts) := by
  rw [← h.text, Layout.text]
  exact covers_blanks h.lead (covers_fits h.units htail)

theorem eq_nil_of_covers_nil {ts : List Terminal} (h : Covers [] ts) : ts = [] := by
  generalize hinput : ([] : Bytes) = input at h
  cases h with
  | nil => rfl
  | blank hblank hrest => cases hinput
  | comment hbody hend hrest => cases hinput
  | terminal hspells ht hend hrest =>
    have := spells_length hspells
    rw [List.nil_eq, List.append_eq_nil_iff] at hinput
    simp [hinput.1] at this

theorem tokens_of_covers {input : Bytes} {ts : List Terminal} (h : Covers input ts)
    : ∃ toks tail, tokens input = toks ++ [(.eof, tail)]
        ∧ (ts = terminals toks ∧ ¬Bare tail ∨ ts = terminals toks ++ [.normal tail] ∧ Bare tail) := by
  induction h with
  | nil => exact ⟨[], [], rfl, .inl ⟨rfl, fun hbare => hbare.1 rfl⟩⟩
  | blank hblank hrest ih => rwa [tokens_blank hblank]
  | @comment body text ts hbody hend hrest ih =>
    have hnot (rest : Bytes) : ¬Bare ('#'.toUInt8 :: rest) :=
      fun hbare => absurd rfl (hbare.2.2 _ rfl).2.1
    cases text with
    | nil =>
      rw [List.append_nil, tokens_unfinished (.comment hbody), eq_nil_of_covers_nil hrest]
      exact ⟨[], _, rfl, .inl ⟨rfl, hnot body⟩⟩
    | cons c text =>
      have hend := hend c rfl
      have htokens := @tokens_spells _ _ text (.comment hbody hend) (fun hbare => absurd hbare (hnot body))
      rw [tokens_blank hend.blank] at ih
      rcases ih with ⟨toks, tail, htoks, hcase⟩
      refine ⟨(.comment, '#'.toUInt8 :: body) :: toks, tail, ?_, ?_⟩
      . simpa [htoks] using htokens
      . rwa [terminals_cons_of_none rfl]
  | @terminal token piece t text ts hspells ht hend hrest ih =>
    by_cases hends : Ends token text
    . rcases ih with ⟨toks, tail, htoks, hcase⟩
      refine ⟨token :: toks, tail, ?_, ?_⟩
      . rw [tokens_spells hspells hends, htoks]
        rfl
      . rw [terminals_cons_of_some ht, List.cons_append, List.cons_inj_right, List.cons_inj_right]
        exact hcase
    . rw [Ends, Classical.not_imp] at hends
      -- a bare token with nothing behind it: the end of the file cuts it off
      rcases hends with ⟨hbare, hhead⟩
      cases text with
      | cons c text => exact absurd ⟨c, rfl, hend hbare c rfl⟩ hhead
      | nil =>
        have hnormal := eq_normal_of_bare hspells hbare
        subst hnormal
        rw [terminal?, Option.some.injEq] at ht
        rw [List.append_nil, tokens_unfinished (.bare hbare), eq_nil_of_covers_nil hrest, ← ht]
        exact ⟨[], piece, rfl, .inr ⟨rfl, hbare⟩⟩

/-! ## Accepted texts -/

theorem derives_ends {ts : List Terminal} {config : NginxConfig} (h : Derives ts config)
    : ∀ t ∈ ts.getLast?, t = .statementEnd ∨ t = .endBlock := by
  induction h with
  | nil => simp
  | @simple ts config values hvalues hrest ih =>
    rw [List.getLast?_append, List.getLast?_cons]
    cases hlast : ts.getLast? with
    | none => simp
    | some t => simpa using ih t hlast
  | @block body childBlock ts config values hvalues hbody hrest ihbody ih =>
    rw [List.getLast?_append, List.getLast?_cons, List.getLast?_append, List.getLast?_cons]
    cases hlast : ts.getLast? with
    | none => simp
    | some t => simpa using ih t hlast

theorem not_derives_append_normal {ts : List Terminal} {value : Bytes} {config : NginxConfig}
    : ¬Derives (ts ++ [.normal value]) config := by
  intro h
  have hends := derives_ends h (.normal value) (by simp)
  simp at hends

theorem endsInBare_iff {input tail : Bytes} {toks : List Token} (htoks : tokens input = toks ++ [(.eof, tail)])
    (herror : NoError (tokens input)) : EndsInBare input ↔ Bare tail := by
  have heof {layout : Layout} (h : layout.Of input) : layout.tail = tail := by
    rw [h.tokens] at htoks
    simpa using (List.append_inj' htoks rfl).2
  constructor
  . rintro ⟨layout, hlayout, hbare⟩
    exact heof hlayout ▸ hbare
  . intro hbare
    rcases exists_layout input herror with ⟨layout, hlayout⟩
    exact ⟨layout, hlayout, heof hlayout ▸ hbare⟩

theorem lacksTerminator_of_endsInBare {input : Bytes} (h : EndsInBare input) : LacksTerminator input := by
  rcases h with ⟨layout, hlayout, hbare⟩
  have htail : Covers layout.tail [.normal layout.tail] := by
    have hcovers := Covers.terminal (.normal (.inr (.inr hbare))) rfl (by simp) .nil
    rwa [List.append_nil] at hcovers
  exact ⟨_, _, hlayout.covers htail⟩

theorem not_lacksTerminator {input : Bytes} {config : NginxConfig}
    (h : Derives (terminals (tokens input)) config) (hends : ¬EndsInBare input)
    (herror : NoError (tokens input)) : ¬LacksTerminator input := by
  rintro ⟨ts, value, hcovers⟩
  rcases tokens_of_covers hcovers with ⟨toks, tail, htoks, ⟨hts, -⟩ | ⟨-, htail⟩⟩
  . rw [htoks, terminals_append, terminals_cons_of_none rfl, ← hts] at h
    exact not_derives_append_normal (by simpa [terminals] using h)
  . exact hends ((endsInBare_iff htoks herror).mpr htail)

/--
The text of an accepted config file is accounted for, byte by byte, if and only if the end of the file does
not cut off a bare token.
-/
theorem nothingIgnored_iff {input : Bytes} {config : NginxConfig}
    (h : parse input [] = some (.ok (true, config)))
    : NothingIgnored input config ↔ ¬EndsInBare input := by
  constructor
  . rintro ⟨-, hlacks⟩ hends
    exact hlacks (lacksTerminator_of_endsInBare hends)
  . intro hends
    rcases (parse_accepts_iff input config).mp h with ⟨herror, hderives⟩
    rcases exists_layout input herror with ⟨layout, hlayout⟩
    have hcovers : Covers input (terminals layout.tokens ++ []) := by
      apply hlayout.covers
      apply covers_unfinished hlayout.units.unfinished
      intro hbare
      exact hends ⟨layout, hlayout, hbare⟩
    have hterminals : terminals layout.tokens ++ [] = terminals (tokens input) := by
      rw [hlayout.tokens, terminals_append, terminals_cons_of_none rfl]
      rfl
    rw [hterminals] at hcovers
    exact ⟨⟨_, hcovers, hderives⟩, not_lacksTerminator hderives hends herror⟩

theorem nothingIgnored_listen
    : NothingIgnored (Bytes.lit "listen 80; # end") [⟨[Bytes.lit "listen", Bytes.lit "80"], none⟩] := by
  refine (nothingIgnored_iff (by rfl)).mpr ?_
  rw [@endsInBare_iff _ (Bytes.lit "# end") [(.normal, Bytes.lit "listen"), (.normal, Bytes.lit "80"),
    (.statementEnd, Bytes.lit ";")] (by decide) (by decide)]
  decide

/-- A file whose last statement lacks its semicolon. -/
theorem parse_unterminated
    : ∃ config, parse (Bytes.lit "listen 80; root") [] = some (.ok (true, config))
        ∧ ¬NothingIgnored (Bytes.lit "listen 80; root") config := by
  refine ⟨[⟨[Bytes.lit "listen", Bytes.lit "80"], none⟩], by rfl, ?_⟩
  rintro ⟨-, hlacks⟩
  apply hlacks
  apply lacksTerminator_of_endsInBare
  rw [@endsInBare_iff _ (Bytes.lit "root") [(.normal, Bytes.lit "listen"), (.normal, Bytes.lit "80"),
    (.statementEnd, Bytes.lit ";")] (by decide) (by decide)]
  decide +kernel

end NginxConfigParser

end Foxy
