import FoxyServer.Config.Layout

/-!
This module contains what the blanks between the tokens of a config file mean to the parser. It skips a
carriage return in front of a token, but does not end a bare token there.
-/

namespace Foxy

namespace NginxConfigParser

/-! ## Derivations of one tree -/

theorem derives_unique {ts ts' : List Terminal} {config : NginxConfig} (h : Derives ts config)
    (h' : Derives ts' config) : ts = ts' := by
  induction h generalizing ts' with
  | nil =>
    cases h'
    rfl
  | simple values hvalues hrest ih =>
    cases h' with
    | simple _ _ hrest' => rw [ih hrest']
  | block values hvalues hbody hrest ihbody ih =>
    cases h' with
    | block _ _ hbody' hrest' => rw [ihbody hbody', ih hrest']

/-! ## Other blanks -/

structure RespacesUnit (unit unit' : Token × Bytes) : Prop where
  token : unit'.1 = unit.1
  gap : Layout.Gap unit'.1 unit'.2
  empty : unit'.2 = [] ↔ unit.2 = []

structure Respaces (layout layout' : Layout) : Prop where
  lead : ∀ c ∈ layout'.lead, Blank c
  units : List.Forall₂ RespacesUnit layout.units layout'.units
  tail : layout'.tail = layout.tail

def BareEnds (units : List (Token × Bytes)) : Prop :=
  ∀ unit ∈ units, Bare unit.1.2 → unit.2.head? ≠ some '\r'.toUInt8

/-! ## Texts that the lexer reads alike -/

theorem Spells.head? {token : Token} {piece : Bytes} (h : Spells token piece) (rest : Bytes)
    : (token.2 ++ rest).head? = token.2.head? := by
  cases h with
  | startBlock | endBlock | statementEnd | comment => rfl
  | normal hlex => exact List.head?_append_of_ne_nil _ (List.length_pos_iff.mp (spells_length (.normal hlex)))

theorem head?_body {tail : Bytes} {units units' : List (Token × Bytes)} (hfits : Layout.Fits tail units)
    (h : List.Forall₂ RespacesUnit units units')
    : (Layout.body tail units').head? = (Layout.body tail units).head? := by
  cases h with
  | nil => rfl
  | cons hunit hunits =>
    rename_i unit unit' units units'
    cases hfits with
    | @cons token piece run _ hspells hgap hends hrest =>
      rcases unit' with ⟨token', run'⟩
      have htoken : token' = token := hunit.token
      rw [htoken, Layout.body, Layout.body, hspells.head?, hspells.head?]

theorem ends_of_respaces {tail : Bytes} {token : Token} {run run' : Bytes}
    {units units' : List (Token × Bytes)} (hfits : Layout.Fits tail units)
    (hends : Ends token (run ++ Layout.body tail units)) (hunit : RespacesUnit (token, run) (token, run'))
    (hunits : List.Forall₂ RespacesUnit units units')
    (hcr : Bare token.2 → run'.head? ≠ some '\r'.toUInt8)
    : Ends token (run' ++ Layout.body tail units') := by
  intro hbare
  cases run' with
  | nil =>
    have hrun : run = [] := hunit.empty.mp rfl
    rw [hrun, List.nil_append] at hends
    rw [List.nil_append, head?_body hfits hunits]
    exact hends hbare
  | cons c run' =>
    refine ⟨c, rfl, ?_⟩
    rcases hunit.gap.blank c List.mem_cons_self with hc | hc | hc | hc
    . exact .inl hc
    . exact .inr (.inl hc)
    . exact .inr (.inr (.inl hc))
    . exact absurd (congrArg some hc) (hcr hbare)

theorem fits_of_respaces {tail : Bytes} {units units' : List (Token × Bytes)} (hfits : Layout.Fits tail units)
    (hunits : List.Forall₂ RespacesUnit units units') (hcr : BareEnds units') : Layout.Fits tail units' := by
  induction hunits with
  | nil => exact hfits
  | @cons unit unit' units units' hunit hunits ih =>
    rcases unit' with ⟨token', run'⟩
    rw [BareEnds, List.forall_mem_cons] at hcr
    cases hfits with
    | @cons token piece run _ hspells hgap hends hrest =>
      have htoken : token' = token := hunit.token
      subst htoken
      exact .cons hspells hunit.gap (ends_of_respaces hrest hends hunit hunits hcr.1) (ih hrest hcr.2)

theorem map_fst_of_respaces {units units' : List (Token × Bytes)}
    (hunits : List.Forall₂ RespacesUnit units units') : units'.map (·.1) = units.map (·.1) := by
  induction hunits with
  | nil => rfl
  | cons hunit hunits ih => rw [List.map_cons, List.map_cons, hunit.token, ih]

/-! ## A carriage return that does not end a token -/

theorem not_reads_bare {value rest : Bytes} (hbare : Bare value) (ts : List Terminal)
    : terminals (tokens (value ++ '\r'.toUInt8 :: rest)) ≠ .normal value :: ts := by
  rcases exists_collected Delimiter rest with ⟨body, rest, rfl, hbody, hrest⟩
  have hlonger : Bare (value ++ '\r'.toUInt8 :: body) := by
    rcases hbare with ⟨hne, hall, hhead⟩
    refine ⟨by simp, ?_, ?_⟩
    . intro c hc
      rcases List.mem_append.mp hc with hc | hc
      . exact hall c hc
      . rcases List.mem_cons.mp hc with rfl | hc
        . decide
        . exact hbody c hc
    . rwa [List.head?_append_of_ne_nil _ hne]
  have htext : value ++ '\r'.toUInt8 :: (body ++ rest) = value ++ '\r'.toUInt8 :: body ++ rest := by simp
  rw [htext]
  rcases hrest with rfl | ⟨d, rest, rfl, hd⟩
  . rw [List.append_nil, tokens_unfinished (.bare hlonger), terminals_cons_of_none rfl]
    exact fun h => by cases h
  . rw [tokens_spells (.normal (.inr (.inr hlonger))) (fun _ => ⟨d, rfl, hd⟩), terminals_cons_of_some rfl]
    intro h
    rw [List.cons.injEq, Terminal.normal.injEq] at h
    simpa using h.1

theorem bareEnds_of_terminals {tail : Bytes} {units units' : List (Token × Bytes)}
    (hfits : Layout.Fits tail units) (hunits : List.Forall₂ RespacesUnit units units')
    (h : terminals (tokens (Layout.body tail units')) = terminals (tokens (Layout.body tail units)))
    : BareEnds units' := by
  induction hunits with
  | nil => simp [BareEnds]
  | @cons unit unit' units units' hunit hunits ih =>
    rcases unit' with ⟨token', run'⟩
    cases hfits with
    | @cons token piece run _ hspells hgap hends hrest =>
      have htoken : token' = token := hunit.token
      subst htoken
      rw [Layout.body, Layout.body, tokens_unit hspells hgap hends] at h
      have hcr : Bare token'.2 → run'.head? ≠ some '\r'.toUInt8 := by
        intro hbare hhead
        rw [List.head?_eq_some_iff] at hhead
        rcases hhead with ⟨run', rfl⟩
        rw [eq_normal_of_bare hspells hbare, terminals_cons_of_some rfl] at h
        rw [eq_normal_of_bare hspells hbare] at hbare
        exact not_reads_bare hbare _ h
      have hends' := ends_of_respaces hrest hends hunit hunits hcr
      rw [tokens_unit hspells hunit.gap hends', terminals_cons,
        terminals_cons _ (tokens (Layout.body tail units)), List.append_cancel_left_eq] at h
      exact List.forall_mem_cons.mpr ⟨hcr, ih hrest h⟩

/--
An accepted config file may be spaced differently, as long as no carriage return gets directly behind a
bare token: it then has the same tree. Otherwise it does not have this tree any more.
-/
theorem parse_respaced {input : Bytes} {config : NginxConfig}
    (h : parse input [] = some (.ok (true, config)))
    : (∃ layout : Layout, layout.Of input)
        ∧ ∀ layout layout' : Layout, layout.Of input → Respaces layout layout' →
            (parse layout'.text [] = some (.ok (true, config)) ↔ BareEnds layout'.units) := by
  rcases (parse_accepts_iff input config).mp h with ⟨herror, hderives⟩
  refine ⟨exists_layout input herror, fun layout layout' hlayout hrespaces => ?_⟩
  have htext : tokens layout'.text = tokens (Layout.body layout.tail layout'.units) := by
    rw [Layout.text, tokens_blanks hrespaces.lead, hrespaces.tail]
  rw [parse_accepts_iff, htext]
  constructor
  . rintro ⟨-, hderives'⟩
    apply bareEnds_of_terminals hlayout.units hrespaces.units
    rw [derives_unique hderives' hderives, hlayout.tokens, hlayout.units.tokens]
    rfl
  . intro hcr
    have htokens : tokens (Layout.body layout.tail layout'.units) = tokens input := by
      rw [(fits_of_respaces hlayout.units hrespaces.units hcr).tokens, map_fst_of_respaces hrespaces.units,
        hlayout.tokens]
      rfl
    rw [htokens]
    exact ⟨herror, hderives⟩

def spacedListen (run : Bytes) : Layout :=
  ⟨[], [((.normal, Bytes.lit "listen"), run), ((.normal, Bytes.lit "80"), []),
    ((.statementEnd, Bytes.lit ";"), [])], []⟩

theorem spacedListen_of : (spacedListen (Bytes.lit "\n")).Of (Bytes.lit "listen\n80;") := by
  refine ⟨by simp [spacedListen], ?_, by rfl⟩
  have hlisten : Bare (Bytes.lit "listen") := by decide +kernel
  have hnumber : Bare (Bytes.lit "80") := by decide +kernel
  have hgap : Layout.Gap (.normal, Bytes.lit "listen") (Bytes.lit "\n") := ⟨by decide +kernel, by simp⟩
  have hempty {token : Token} (h : token.1 ≠ .comment) : Layout.Gap token [] :=
    ⟨by simp, fun hcomment => absurd hcomment h⟩
  refine .cons (.normal (.inr (.inr hlisten))) hgap (fun _ => ⟨'\n'.toUInt8, rfl, by decide⟩) ?_
  refine .cons (.normal (.inr (.inr hnumber))) (hempty (by decide)) (fun _ => ⟨';'.toUInt8, rfl, by decide⟩) ?_
  refine .cons .statementEnd (hempty (by decide)) (fun hbare => absurd hbare (by decide +kernel)) ?_
  exact .nil .nothing

theorem spacedListen_respaces {run : Bytes} (hrun : ∀ c ∈ run, Blank c) (hne : run ≠ [])
    : Respaces (spacedListen (Bytes.lit "\n")) (spacedListen run) := by
  refine ⟨by simp [spacedListen], ?_, rfl⟩
  have hempty {token : Token} (h : token.1 ≠ .comment) : RespacesUnit (token, []) (token, []) :=
    ⟨rfl, ⟨by simp, fun hcomment => absurd hcomment h⟩, .rfl⟩
  refine .cons ⟨rfl, ⟨hrun, by simp⟩, by simp [hne, Bytes.lit]⟩ ?_
  exact .cons (hempty (by decide)) (.cons (hempty (by decide)) .nil)

theorem parse_respaced_listen
    : parse (Bytes.lit "listen \r\n80;") []
        = some (.ok (true, [⟨[Bytes.lit "listen", Bytes.lit "80"], none⟩])) := by
  refine ((parse_respaced (by rfl)).2 _ _ spacedListen_of
    (@spacedListen_respaces (Bytes.lit " \r\n") (by decide +kernel) (by decide))).mpr ?_
  simp [BareEnds, spacedListen, Bytes.lit]

/-- The same file with other line ends has another tree. -/
theorem parse_crlf
    : ∃ layout layout' : Layout, ∃ config,
        layout.Of (Bytes.lit "listen\n80;") ∧ Respaces layout layout'
          ∧ parse (Bytes.lit "listen\n80;") [] = some (.ok (true, config))
          ∧ parse layout'.text [] ≠ some (.ok (true, config)) := by
  refine ⟨_, _, [⟨[Bytes.lit "listen", Bytes.lit "80"], none⟩], spacedListen_of,
    @spacedListen_respaces (Bytes.lit "\r\n") (by decide +kernel) (by decide), by rfl, ?_⟩
  have htree : parse (spacedListen (Bytes.lit "\r\n")).text []
      = some (.ok (true, [⟨[Bytes.lit "listen\r", Bytes.lit "80"], none⟩])) := by
    rfl
  rw [htree]
  simp [Bytes.lit]

end NginxConfigParser

end Foxy
