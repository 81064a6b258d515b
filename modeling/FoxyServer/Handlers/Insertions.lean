import FoxyServer.Handlers.Proxy
import FoxyServer.Library.Insertion
import Mathlib.Data.List.TakeWhile

/-!
This module contains what the proxy handler does to a page: the location goes in front of the absolute paths
of its links, and a link without a target makes the loop append the rest of the page twice.
-/

namespace Foxy

open Insertion

namespace ProxyRequestHandler

/-! ## Links -/

def quote : UInt8 := '\x22'.toUInt8

def IsKeyword (keyword : Bytes) : Prop :=
  keyword = Bytes.lit "href" ∨ keyword = Bytes.lit "src"

def OpensLink (before : Bytes) : Prop :=
  ∃ front keyword between, IsKeyword keyword ∧ quote ∉ between
    ∧ before = front ++ keyword ++ between ++ [quote]

def AbsoluteLink (before behind : Bytes) : Prop :=
  OpensLink before ∧ behind.head? = some '/'.toUInt8

def bare (path : Bytes) : Bytes :=
  if path.getLast? = some '/'.toUInt8 then path.dropLast else path

/-- The page with the path in front of some of the absolute paths of its links, and with nothing else changed. -/
def OnlyInserts (path body cleaned : Bytes) : Prop :=
  Inserted AbsoluteLink (bare path) [] body cleaned

def LinksQuoted (body : Bytes) : Prop :=
  ∀ front keyword behind, IsKeyword keyword → body = front ++ keyword ++ behind → quote ∈ behind.dropLast

theorem quote_not_mem_keyword {keyword : Bytes} (h : IsKeyword keyword) : quote ∉ keyword := by
  cases h with
  | inl h => rw [h]; decide
  | inr h => rw [h]; decide

theorem keyword_ne_nil {keyword : Bytes} (h : IsKeyword keyword) : keyword ≠ [] := by
  cases h with
  | inl h => rw [h]; decide
  | inr h => rw [h]; decide

theorem nextLink?_eq_none {body : Bytes} (h : nextLink? body = none) {keyword : Bytes}
    (hkeyword : IsKeyword keyword) : ¬keyword <:+: body := by
  rw [nextLink?] at h
  split at h
  next hhref hsrc =>
    cases hkeyword with
    | inl hkeyword => rw [hkeyword]; exact Bytes.find_eq_none.mp hhref
    | inr hkeyword => rw [hkeyword]; exact Bytes.find_eq_none.mp hsrc
  next => cases h
  next => cases h
  next => split at h <;> cases h

theorem nextLink?_eq_some {body : Bytes} {link : Nat} (h : nextLink? body = some link)
    : ∃ front keyword behind, IsKeyword keyword ∧ body = front ++ keyword ++ behind
        ∧ link = (front ++ keyword).length ∧ ∀ other, IsKeyword other → ¬other <:+: front := by
  have hfound : ∀ keyword i, IsKeyword keyword → Bytes.find keyword body = some i →
      (∀ other, IsKeyword other → ¬other <:+: body.take i) →
      ∃ front keyword' behind, IsKeyword keyword' ∧ body = front ++ keyword' ++ behind
        ∧ i + keyword.length = (front ++ keyword').length ∧ ∀ other, IsKeyword other → ¬other <:+: front := by
    intro keyword i hkeyword hfind hnone
    rcases Bytes.find_eq_some hfind with ⟨behind, hbody⟩
    have hlength : (body.take i).length = i := by
      rw [List.length_take, Nat.min_eq_left]
      by_contra hlt
      rw [List.take_of_length_le (by omega)] at hbody
      have := congrArg List.length hbody
      have := List.length_pos_of_ne_nil (keyword_ne_nil hkeyword)
      simp only [List.length_append] at *
      omega
    refine ⟨body.take i, keyword, behind, hkeyword, hbody, ?_, hnone⟩
    rw [List.length_append, hlength]
  -- in front of the first place of a keyword it is nowhere
  have htake : ∀ keyword i m, IsKeyword keyword → Bytes.find keyword body = some i → m ≤ i →
      ¬keyword <:+: body.take m :=
    fun keyword i m hkeyword hfind hm => Bytes.not_infix_take_of_find (keyword_ne_nil hkeyword) hfind hm
  have hnever : ∀ keyword m, Bytes.find keyword body = none → ¬keyword <:+: body.take m :=
    fun keyword m hfind hwithin => Bytes.find_eq_none.mp hfind (hwithin.trans (List.take_prefix m body).isInfix)
  rw [nextLink?] at h
  split at h
  next => cases h
  next src hhref hsrc =>
    rw [← Option.some.inj h]
    refine hfound _ _ (.inr rfl) hsrc ?_
    rintro other (rfl | rfl)
    . exact hnever _ _ hhref
    . exact htake _ _ _ (.inr rfl) hsrc (Nat.le_refl _)
  next href hhref hsrc =>
    rw [← Option.some.inj h]
    refine hfound _ _ (.inl rfl) hhref ?_
    rintro other (rfl | rfl)
    . exact htake _ _ _ (.inl rfl) hhref (Nat.le_refl _)
    . exact hnever _ _ hsrc
  next href src hhref hsrc =>
    split at h
    next hlt =>
      rw [← Option.some.inj h]
      refine hfound _ _ (.inl rfl) hhref ?_
      rintro other (rfl | rfl)
      . exact htake _ _ _ (.inl rfl) hhref (Nat.le_refl _)
      . exact htake _ _ _ (.inr rfl) hsrc (by omega)
    -- the other keyword comes first, so it is the nearer of the two
    next hge =>
      rw [← Option.some.inj h]
      refine hfound _ _ (.inr rfl) hsrc ?_
      rintro other (rfl | rfl)
      . exact htake _ _ _ (.inl rfl) hhref (by omega)
      . exact htake _ _ _ (.inr rfl) hsrc (Nat.le_refl _)

/-! ## The loop -/

def Settled (before : Bytes) : Prop :=
  ∀ c ∈ before.getLast?, c = quote

theorem settled_append_quote (before : Bytes) : Settled (before ++ [quote]) := by
  intro c hc
  rw [List.getLast?_concat, Option.mem_some_iff] at hc
  exact hc.symm

theorem not_opensLink {before front : Bytes} {c : UInt8} (hsettled : Settled before)
    (hfront : c = quote → ∀ keyword, IsKeyword keyword → ¬keyword <:+: front)
    : ¬OpensLink (before ++ (front ++ [c])) := by
  rintro ⟨front', keyword, between, hkeyword, hbetween, heq⟩
  rw [← List.append_assoc, List.append_singleton_inj, List.append_assoc] at heq
  have hnone := hfront heq.2 keyword hkeyword
  rcases List.append_eq_append_iff.mp heq.1 with ⟨a, rfl, ha⟩ | ⟨a, hbefore, ha⟩
  . exact hnone ⟨a, between, by rw [ha, List.append_assoc]⟩
  . cases a using List.reverseRecOn with
    | nil => exact hnone ⟨[], between, by simpa using ha⟩
    | append_singleton a b =>
      have hb : b = quote := hsettled b (by simp [hbefore])
      have hmem : quote ∈ keyword ++ between := by simp [ha, hb]
      rcases List.mem_append.mp hmem with hmem | hmem
      . exact quote_not_mem_keyword hkeyword hmem
      . exact hbetween hmem

theorem quote_mem_dropLast {keyword behind front rest : Bytes} (hkeyword : IsKeyword keyword)
    (heq : keyword ++ behind = front ++ quote :: rest) (hrest : rest ≠ []) : quote ∈ behind.dropLast := by
  rcases List.append_eq_append_iff.mp heq with ⟨a, -, hbehind⟩ | ⟨a, ha, hbehind⟩
  . rw [hbehind, List.dropLast_append_of_ne_nil (List.cons_ne_nil _ _), List.dropLast_cons_of_ne_nil hrest]
    simp
  . cases a with
    | nil =>
      rw [List.nil_append] at hbehind
      rw [← hbehind, List.dropLast_cons_of_ne_nil hrest]
      simp
    | cons b a =>
      exfalso
      apply quote_not_mem_keyword hkeyword
      rw [ha, (List.cons.inj hbehind).1]
      simp

theorem linksQuoted_append {front rest : Bytes} (hrest : rest ≠ [])
    : LinksQuoted (front ++ quote :: rest) ↔ LinksQuoted rest := by
  constructor
  . intro h front' keyword behind hkeyword heq
    exact h (front ++ quote :: front') keyword behind hkeyword (by simp [heq])
  . intro h front' keyword behind hkeyword heq
    rw [List.append_assoc] at heq
    rcases List.append_eq_append_iff.mp heq with ⟨a, -, ha⟩ | ⟨a, -, ha⟩
    . cases a with
      | nil => exact @quote_mem_dropLast _ _ [] _ hkeyword ha.symm hrest
      | cons b a =>
        refine h a keyword behind hkeyword ?_
        rw [List.append_assoc]
        exact (List.cons.inj ha).2
    . exact quote_mem_dropLast hkeyword ha hrest

theorem scan_quote (behind : Bytes)
    : behind.length ≤ (behind.takeWhile (· ≠ quote)).length + 1 ∧ quote ∉ behind.dropLast
        ∨ ∃ between rest, behind = between ++ quote :: rest ∧ rest ≠ [] ∧ quote ∉ between
          ∧ behind.takeWhile (· ≠ quote) = between := by
  have hbetween : quote ∉ behind.takeWhile (· ≠ quote) := by
    intro hmem
    simpa using List.mem_takeWhile_imp hmem
  have hsplit := @List.takeWhile_append_dropWhile _ (fun c => decide (c ≠ quote)) behind
  rcases hdrop : behind.dropWhile (· ≠ quote) with _ | ⟨c, rest⟩
  . rw [hdrop, List.append_nil] at hsplit
    refine .inl ⟨?_, ?_⟩
    . rw [hsplit]
      omega
    . rw [hsplit] at hbetween
      exact fun hmem => hbetween (List.mem_of_mem_dropLast hmem)
  . have hc : c = quote := by
      have hhead := List.head?_dropWhile_not (fun c => decide (c ≠ quote)) behind
      rw [hdrop] at hhead
      simpa using hhead
    rw [hdrop, hc] at hsplit
    cases rest with
    | nil =>
      refine .inl ⟨?_, ?_⟩
      . rw [← hsplit, List.length_append, hsplit]
        simp
      . rw [← hsplit, List.dropLast_concat]
        exact hbetween
    | cons b rest => exact .inr ⟨_, _, hsplit.symm, List.cons_ne_nil _ _, hbetween, rfl⟩

/-! ### What one pass goes over -/

section

variable {before front keyword between behind rest path : Bytes}

theorem insertAll_of_no_keyword (hsettled : Settled before) {body : Bytes}
    (hnone : ∀ keyword, IsKeyword keyword → ¬keyword <:+: body)
    : insertAll AbsoluteLink path before body = body := by
  apply insertAll_of_no_place
  intro front a back heq hplace
  refine not_opensLink hsettled ?_ hplace.1
  intro _ keyword hkeyword hwithin
  apply hnone keyword hkeyword
  rw [heq]
  exact hwithin.trans (List.prefix_append _ _).isInfix

theorem insertAll_of_no_target (hsettled : Settled before) (hkeyword : IsKeyword keyword)
    (hfront : ∀ other, IsKeyword other → ¬other <:+: front) (htarget : quote ∉ behind.dropLast)
    : insertAll AbsoluteLink path before (front ++ keyword ++ behind) = front ++ keyword ++ behind := by
  apply insertAll_of_no_place
  intro front' a back heq hplace
  have hback : back ≠ [] := by
    rintro rfl
    cases hplace.2
  refine not_opensLink hsettled ?_ hplace.1
  rintro rfl
  rw [List.append_assoc] at heq
  rcases List.append_eq_append_iff.mp heq with ⟨c, -, hc⟩ | ⟨c, hc, -⟩
  . exact absurd (quote_mem_dropLast hkeyword hc hback) htarget
  . rw [hc] at hfront
    exact fun other hother hwithin => hfront other hother (hwithin.trans (List.prefix_append _ _).isInfix)

theorem insertAll_of_target (hsettled : Settled before) (hkeyword : IsKeyword keyword)
    (hfront : ∀ other, IsKeyword other → ¬other <:+: front) (hbetween : quote ∉ between)
    : insertAll AbsoluteLink path before (front ++ (keyword ++ between) ++ quote :: rest)
        =
      front ++ (keyword ++ between)
        ++ insertAll AbsoluteLink path (before ++ (front ++ (keyword ++ between))) (quote :: rest) := by
  apply insertAll_append
  intro front' a back heq hplace
  refine not_opensLink hsettled ?_ hplace.1
  rintro rfl
  rcases List.append_eq_append_iff.mp heq with ⟨c, -, hc⟩ | ⟨c, hc, -⟩
  . have hmem : quote ∈ keyword ++ between := by simp [hc]
    rcases List.mem_append.mp hmem with hmem | hmem
    . exact absurd hmem (quote_not_mem_keyword hkeyword)
    . exact absurd hmem hbetween
  . rw [hc] at hfront
    exact fun other hother hwithin => hfront other hother (hwithin.trans (List.prefix_append _ _).isInfix)

theorem opensLink_target (hkeyword : IsKeyword keyword) (hbetween : quote ∉ between)
    : OpensLink (before ++ (front ++ (keyword ++ between)) ++ [quote]) :=
  ⟨before ++ front, keyword, between, hkeyword, hbetween, by simp⟩

end

theorem cleanHtmlFrom_eq {path cleanedBody body before : Bytes} (hsettled : Settled before)
    : ∃ repeated, cleanHtmlFrom path cleanedBody body
          = cleanedBody ++ insertAll AbsoluteLink path before body ++ repeated
        ∧ (repeated = [] ↔ LinksQuoted body) := by
  induction hn : body.length using Nat.strong_induction_on generalizing cleanedBody body before with
  | _ n ih =>
    subst hn
    rw [cleanHtmlFrom]
    split
    next hnone =>
      refine ⟨[], ?_, iff_of_true rfl ?_⟩
      . rw [insertAll_of_no_keyword hsettled fun keyword => nextLink?_eq_none hnone, List.append_nil]
      . intro front keyword behind hkeyword heq
        exact absurd ⟨front, behind, heq.symm⟩ (nextLink?_eq_none hnone hkeyword)
    next link hlink =>
      rcases nextLink?_eq_some hlink with ⟨front, keyword, behind, hkeyword, hbody, hlength, hfront⟩
      have hdrop : body.drop link = behind := by
        rw [hbody, hlength, List.drop_left]
      have hopen : body.length = link + behind.length := by
        rw [hlength, ← List.length_append, ← hbody]
      have hquote : '\x22'.toUInt8 = quote := rfl
      dsimp only
      rw [hdrop, hquote]
      rcases scan_quote behind with ⟨hscan, htarget⟩ | ⟨between, rest, hbehind, hrest, hbetween, hscan⟩
      . -- no target: the rest of the page is appended here and once more behind the loop
        rw [if_pos (by omega)]
        refine ⟨body, ?_, iff_of_false ?_ ?_⟩
        . rw [hbody, insertAll_of_no_target hsettled hkeyword hfront htarget]
        . rw [hbody]
          simp [keyword_ne_nil hkeyword]
        . exact fun h => htarget (h front keyword behind hkeyword hbody)
      . have hpage : body = front ++ (keyword ++ between) ++ quote :: rest := by
          simp [hbody, hbehind]
        have hj : link + between.length = (front ++ (keyword ++ between)).length := by
          simp [hlength, Nat.add_assoc]
        have hpos : 0 < rest.length := List.length_pos_of_ne_nil hrest
        have hopens := @opensLink_target before front _ _ hkeyword hbetween
        have hstretch := @insertAll_of_target _ _ _ _ rest path hsettled hkeyword hfront hbetween
        generalize front ++ (keyword ++ between) = stretch at *
        have htake : body.take (link + between.length + 1) = stretch ++ [quote] := by
          rw [hpage, hj, List.take_length_add_append]
          rfl
        have hleft : body.drop (link + between.length + 1) = rest := by
          rw [hpage, hj, List.drop_length_add_append]
          rfl
        have hnext : body[link + between.length + 1]? = rest.head? := by
          rw [← hleft, List.head?_drop]
        have hshort : rest.length < body.length := by
          simp only [hpage, List.length_append, List.length_cons]
          omega
        have hlong : ¬link + between.length + 1 ≥ body.length := by
          rw [hj, hpage, List.length_append, List.length_cons]
          omega
        rw [hscan, if_neg hlong, htake, hleft, hnext, hpage, hstretch, linksQuoted_append hrest]
        have hrestSettled := settled_append_quote (before ++ stretch)
        by_cases hslash : rest.head? = some '/'.toUInt8
        . rw [if_neg (not_not.mpr hslash), insertAll_cons_of_place ⟨hopens, hslash⟩]
          rcases @ih _ hshort (cleanedBody ++ (stretch ++ [quote]) ++ path) _ _ hrestSettled rfl
            with ⟨repeated, hclean, hrepeated⟩
          refine ⟨repeated, ?_, hrepeated⟩
          rw [hclean]
          simp only [List.append_assoc, List.cons_append, List.nil_append]
        . rw [if_pos hslash, insertAll_cons_of_not_place fun hplace => hslash hplace.2]
          rcases @ih _ hshort (cleanedBody ++ (stretch ++ [quote])) _ _ hrestSettled rfl
            with ⟨repeated, hclean, hrepeated⟩
          refine ⟨repeated, ?_, hrepeated⟩
          rw [hclean]
          simp only [List.append_assoc, List.cons_append, List.nil_append]

theorem cleanHtmlFrom_onlyInserts_iff {path body : Bytes}
    : OnlyInserts path body (cleanHtmlFrom (bare path) [] body) ↔ LinksQuoted body := by
  rcases @cleanHtmlFrom_eq (bare path) [] body [] (by simp [Settled]) with ⟨repeated, hclean, hrepeated⟩
  rw [hclean, List.nil_append, ← hrepeated]
  constructor
  . intro h
    have hlength := h.length_le
    rw [List.length_append] at hlength
    apply List.eq_nil_of_length_eq_zero
    omega
  . intro h
    rw [h, List.append_nil]
    exact inserted_insertAll [] body

theorem cleanHtml_eq {handler : ProxyRequestHandler} (hne : handler.path ≠ []) (body : Bytes)
    : handler.cleanHtml body = .ok (cleanHtmlFrom (bare handler.path) [] body) := by
  rw [cleanHtml]
  cases hlast : handler.path.getLast? with
  | none => exact absurd (List.getLast?_eq_none_iff.mp hlast) hne
  | some c => simp only [bare, hlast, Option.some.injEq]

/--
The page comes back with nothing but copies of the path in it exactly when the location has a path and every
link has its target.
-/
theorem cleanHtml_onlyInserts_iff {handler : ProxyRequestHandler} {body : Bytes}
    : (handler.cleanHtml body).Yields (OnlyInserts handler.path body)
        ↔
      handler.path ≠ [] ∧ LinksQuoted body := by
  by_cases hne : handler.path = []
  . simp [cleanHtml, hne, Outcome.Yields]
  . rw [cleanHtml_eq hne, Outcome.yields_ok, cleanHtmlFrom_onlyInserts_iff, and_iff_right hne]

def linking : Bytes := Bytes.lit "<a href=/x>x</a>"

/-- A link without quotes: the page comes back twice. -/
theorem cleanHtml_unquoted
    : ({ path := Bytes.lit "/foxy/" } : ProxyRequestHandler).cleanHtml linking = .ok (linking ++ linking)
        ∧ ¬(({ path := Bytes.lit "/foxy/" } : ProxyRequestHandler).cleanHtml linking).Yields
          (OnlyInserts (Bytes.lit "/foxy/") linking) := by
  have hclean : cleanHtmlFrom (Bytes.lit "/foxy") [] linking = linking ++ linking := by
    rw [cleanHtmlFrom]
    decide +kernel
  constructor
  . rw [cleanHtml_eq (by decide)]
    exact congrArg _ hclean
  . rw [cleanHtml_eq (by decide), Outcome.yields_ok, cleanHtmlFrom_onlyInserts_iff]
    intro h
    have := h (Bytes.lit "<a ") (Bytes.lit "href") (Bytes.lit "=/x>x</a>") (.inl rfl) (by decide +kernel)
    revert this
    decide +kernel

end ProxyRequestHandler

end Foxy
