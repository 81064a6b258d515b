import FoxyServer.Handlers.Dispatch

/-!
This module contains which files the static handler can be made to open.
-/

namespace Foxy

/-! ## Paths without `..` -/

def NoDots (s : Bytes) : Prop :=
  ¬Bytes.lit ".." <:+: s

theorem noDots_mono {s t : Bytes} (h : s <:+: t) (ht : NoDots t) : NoDots s :=
  fun hs => ht (hs.trans h)

theorem noDots_append {s t : Bytes} (hs : NoDots s) (ht : NoDots t)
    (hjoin : s.getLast? ≠ some '.'.toUInt8 ∨ t.head? ≠ some '.'.toUInt8) : NoDots (s ++ t) := by
  induction s with
  | nil => exact ht
  | cons c s ih =>
    have hs' : NoDots s := noDots_mono (List.suffix_cons c s).isInfix hs
    rw [NoDots, List.cons_append, List.infix_cons_iff]
    rintro (⟨rest, hpre⟩ | hinf)
    . simp only [show Bytes.lit ".." = ['.'.toUInt8, '.'.toUInt8] from rfl, List.cons_append,
        List.nil_append, List.cons.injEq] at hpre
      rcases hpre with ⟨rfl, hpre⟩
      cases s with
      | nil =>
        rw [List.nil_append] at hpre
        rw [← hpre] at hjoin
        simp at hjoin
      | cons d s =>
        simp only [List.cons_append, List.cons.injEq] at hpre
        rw [← hpre.1] at hs
        exact hs (List.prefix_append ['.'.toUInt8, '.'.toUInt8] s).isInfix
    . refine ih hs' ?_ hinf
      cases s with
      | nil => simp
      | cons d s => simpa using hjoin

theorem noDots_iff_not_contains {s : Bytes} : NoDots s ↔ s.contains (Bytes.lit "..") = false := by
  rw [NoDots, ← Bytes.contains_iff, Bool.not_eq_true]

theorem noDots_of_prefix_append {before root : Bytes} (hroot : root <+: before ++ root)
    (hbefore : NoDots before) (hslash : before.head? = some '/'.toUInt8) : NoDots root := by
  have htake : ∀ n, NoDots (root.take n) := by
    intro n
    induction n using Nat.strong_induction_on with
    | _ n ih =>
      apply noDots_mono (hroot.take n).isInfix
      rw [List.take_append]
      have hpos : 0 < before.length := by
        cases before with
        | nil => cases hslash
        | cons c before => simp
      cases n with
      | zero => simp [NoDots, Bytes.lit]
      | succ n =>
        refine noDots_append (noDots_mono (List.take_prefix _ _).isInfix hbefore)
          (ih _ (by omega)) (.inr ?_)
        -- what follows starts with the slash the text starts with
        cases hrest : n + 1 - before.length with
        | zero => simp
        | succ k =>
          cases root with
          | nil => simp
          | cons d root =>
            cases before with
            | nil => cases hslash
            | cons c before =>
              simp only [List.head?_cons, Option.some.injEq] at hslash
              rcases hroot with ⟨rest, heq⟩
              simp only [List.cons_append, List.cons.injEq] at heq
              rw [List.take_succ_cons, List.head?_cons, heq.1, hslash]
              decide
  simpa using htake root.length

namespace StaticRequestHandler

/-! ## The path that is opened -/

theorem checkRequestPath_eq_some {uri requestPath : Bytes}
    (h : checkRequestPath uri = some requestPath)
    : requestPath.head? = some '/'.toUInt8 ∧ NoDots requestPath := by
  rcases Option.bind_eq_some_iff.mp h with ⟨decoded, -, h⟩
  split_ifs at h with hrefused hdirectory
  . rw [not_or, not_not, Bool.not_eq_true, ← noDots_iff_not_contains] at hrefused
    rw [← Option.some.inj h]
    constructor
    . rw [List.head?_append, hrefused.1]
      rfl
    . apply noDots_append hrefused.2
      . rw [noDots_iff_not_contains]
        decide +kernel
      . exact .inr (by decide)
  . rw [not_or, not_not, Bool.not_eq_true, ← noDots_iff_not_contains] at hrefused
    rw [← Option.some.inj h]
    exact hrefused

/--
The opened path is the requested one, with the first occurrence of the location replaced by the root, up
to the first NUL byte.
-/
theorem opened_iff {handler : StaticRequestHandler} {files : FileSystem} {verifyCookie : Bytes → Bool}
    {request : Request} {opened : Bytes}
    : (handler.handleRequest files verifyCookie request).2 = some opened
        ↔
      (handler.authPath = []
          ∨ checkCookie verifyCookie ((request.headers.find? (Bytes.lit "Cookie")).getD []) = true)
        ∧ ∃ requestPath startPos, checkRequestPath request.uri = some requestPath
            ∧ Bytes.find handler.path requestPath = some startPos
            ∧ opened = Bytes.cStr (requestPath.take startPos ++ handler.root
                ++ requestPath.drop (startPos + handler.path.length)) := by
  simp only [handleRequest]
  split_ifs with hauth
  . have hrefused : ¬(handler.authPath = []
        ∨ checkCookie verifyCookie ((request.headers.find? (Bytes.lit "Cookie")).getD []) = true) := by
      simpa [List.length_eq_zero_iff] using hauth
    simp [hrefused]
  . have hallowed : handler.authPath = []
        ∨ checkCookie verifyCookie ((request.headers.find? (Bytes.lit "Cookie")).getD []) = true := by
      by_contra hrefused
      exact hauth (by simpa [List.length_eq_zero_iff] using hrefused)
    rw [and_iff_right hallowed]
    cases hcheck : checkRequestPath request.uri with
    | none => simp
    | some requestPath =>
      have hne : requestPath ≠ [] := by
        rintro rfl
        cases (checkRequestPath_eq_some hcheck).1
      simp only [hne, if_false, replacePath]
      cases hfind : Bytes.find handler.path requestPath with
      | none => simp [hfind]
      | some startPos =>
        simp only [Option.some.injEq, exists_and_left, exists_eq_left', hfind]
        split <;> simp [eq_comm]

/-- The path lies under the root: what follows the root does not lead out of it. -/
def Contained (root opened : Bytes) : Prop :=
  ∃ suffix, opened = root ++ suffix ∧ NoDots suffix

/--
The requested path leads into the root: what precedes the location in it, followed by the root, begins with
the root.
-/
def LeadsIntoRoot (handler : StaticRequestHandler) (uri : Bytes) : Prop :=
  ∃ requestPath startPos, checkRequestPath uri = some requestPath
    ∧ Bytes.find handler.path requestPath = some startPos
    ∧ handler.root <+: Bytes.cStr (requestPath.take startPos ++ handler.root)

theorem prefix_cStr {s t : Bytes} (hs : s.NoNul) (h : s <+: t) : s <+: Bytes.cStr t := by
  rcases h with ⟨rest, rfl⟩
  rw [Bytes.cStr_append_of_noNul hs]
  exact List.prefix_append s _

theorem noNul_of_prefix_cStr {s t : Bytes} (h : s <+: Bytes.cStr t) : s.NoNul :=
  fun b hb => Bytes.noNul_cStr t b (h.subset hb)

theorem prefix_cStr_append_iff {before root after : Bytes}
    : root <+: Bytes.cStr (before ++ root ++ after) ↔ root <+: Bytes.cStr (before ++ root) := by
  constructor
  . intro h
    apply prefix_cStr (noNul_of_prefix_cStr h)
    apply List.prefix_of_prefix_length_le (h.trans (Bytes.cStr_prefix _)) (List.prefix_append _ after)
    simp
  . intro h
    apply prefix_cStr (noNul_of_prefix_cStr h)
    exact (h.trans (Bytes.cStr_prefix _)).trans (List.prefix_append _ after)

theorem noDots_suffix {before root after suffix : Bytes} (hbefore : NoDots before) (hafter : NoDots after)
    (hslash : before = [] ∨ before.head? = some '/'.toUInt8) (hroot : root.getLast? = some '/'.toUInt8)
    (heq : root ++ suffix = Bytes.cStr (before ++ root ++ after)) : NoDots suffix := by
  have hfull : root ++ suffix <+: before ++ root ++ after := heq ▸ Bytes.cStr_prefix _
  rcases hslash with rfl | hslash
  . rw [List.nil_append, List.prefix_append_right_inj] at hfull
    exact noDots_mono hfull.isInfix hafter
  . have hpre : root <+: before ++ root := by
      apply List.prefix_of_prefix_length_le ((List.prefix_append root suffix).trans hfull)
        (List.prefix_append _ after)
      simp
    have hhead : root.head? ≠ some '.'.toUInt8 := by
      cases root with
      | nil => simp
      | cons d root =>
        cases before with
        | nil => cases hslash
        | cons c before =>
          rcases hpre with ⟨rest, hrest⟩
          simp only [List.head?_cons, Option.some.injEq] at hslash
          simp only [List.cons_append, List.cons.injEq] at hrest
          rw [List.head?_cons, hrest.1, hslash]
          decide
    have hlast : (before ++ root).getLast? ≠ some '.'.toUInt8 := by
      rw [List.getLast?_append, hroot, Option.some_or]
      decide
    have hdots := noDots_append
      (noDots_append hbefore (noDots_of_prefix_append hpre hbefore hslash) (.inr hhead)) hafter
      (.inl hlast)
    exact noDots_mono ((List.suffix_append root suffix).isInfix.trans hfull.isInfix) hdots

theorem contained_iff {before root after : Bytes} (hbefore : NoDots before) (hafter : NoDots after)
    (hslash : before = [] ∨ before.head? = some '/'.toUInt8) (hroot : root.getLast? = some '/'.toUInt8)
    : Contained root (Bytes.cStr (before ++ root ++ after)) ↔ root <+: Bytes.cStr (before ++ root) := by
  rw [← prefix_cStr_append_iff]
  constructor
  . rintro ⟨suffix, heq, -⟩
    exact ⟨suffix, heq.symm⟩
  . rintro ⟨suffix, heq⟩
    exact ⟨suffix, heq.symm, noDots_suffix hbefore hafter hslash hroot heq⟩

/--
A file that is opened for a request lies under the root of the handler exactly when the requested path
leads into the root.
-/
theorem opened_contained_iff {config : NginxConfig} {startup startup' : Startup} {accepted : Bool}
    {generator : RequestHandlerGenerator}
    (hmap : RequestHandlerGenerator.getMap {} config startup = .ok (accepted, generator, startup'))
    {files : FileSystem} {verifyCookie : Bytes → Bool} {request : Request} {ptr : HandlerPtr}
    {handler : StaticRequestHandler} {opened : Bytes}
    (hroute : (generator.dispatchHandler request.uri).1 = some ptr) (hstatic : ptr.object = .static handler)
    (hopened : (handler.handleRequest files verifyCookie request).2 = some opened)
    : Contained handler.root opened ↔ handler.LeadsIntoRoot request.uri := by
  have hroot : handler.root.getLast? = some '/'.toUInt8 := by
    rcases RequestHandlerGenerator.registered_getMap hmap with ⟨allocated, hregistered⟩
    rcases hregistered.entry _ _ (RequestHandlerGenerator.find?_of_dispatchHandler hroute)
      with ⟨ptr', hptr, -, hentry⟩
    exact (hentry handler (Option.some.inj hptr ▸ hstatic)).2
  rcases (opened_iff.mp hopened).2 with ⟨requestPath, startPos, hcheck, hfind, rfl⟩
  rcases checkRequestPath_eq_some hcheck with ⟨hslash, hdots⟩
  have hcontained := contained_iff (noDots_mono (List.take_prefix startPos _).isInfix hdots)
    (noDots_mono (List.drop_suffix (startPos + handler.path.length) _).isInfix hdots)
    (by
      cases startPos with
      | zero => simp
      | succ n =>
        right
        cases requestPath with
        | nil => cases hslash
        | cons c requestPath => exact hslash) hroot
  rw [hcontained]
  constructor
  . intro hpre
    exact ⟨requestPath, startPos, hcheck, hfind, hpre⟩
  . rintro ⟨requestPath', startPos', hcheck', hfind', hpre⟩
    rw [hcheck, Option.some.injEq] at hcheck'
    subst hcheck'
    rw [hfind, Option.some.injEq] at hfind'
    rwa [hfind']

def serveFrom (path root : String) : NginxConfig :=
  [⟨[Bytes.lit "location", Bytes.lit ("\"" ++ path ++ "\""), Bytes.lit "StaticHandler"],
    some [⟨[Bytes.lit "root", Bytes.lit ("\"" ++ root ++ "\"")], none⟩]⟩]

def staticAt (path root : String) : StaticRequestHandler :=
  { root := Bytes.lit root, path := Bytes.lit path }

theorem opened_contained_iff_static
    : Contained (Bytes.lit "./data/") (Bytes.lit "./data/x")
        ↔
      (staticAt "/static/" "./data/").LeadsIntoRoot (Bytes.lit "/static/x") := by
  rcases @RequestHandlerGenerator.getMap_registeredBy (serveFrom "/static/" "./data/")
    (by decide +kernel) with ⟨accepted, hmap⟩
  exact @opened_contained_iff _ _ _ _ _ hmap (fun _ => none) (fun _ => false)
    { uri := Bytes.lit "/static/x" } ⟨0, .static (staticAt "/static/" "./data/")⟩
    (staticAt "/static/" "./data/") _ (by decide +kernel) rfl (by decide +kernel)

/--
The root is put in the place of the location wherever the location is, so a second slash before it leads to
a path from the root of the file system.
-/
theorem opened_outside_root
    : (RequestHandlerGenerator.getMap {} (serveFrom "/static/" "./data/") {}).Returns
        ∧ ((RequestHandlerGenerator.registeredBy (serveFrom "/static/" "./data/")).1.dispatchHandler
            (Bytes.lit "//static/x")).1 = some ⟨0, .static (staticAt "/static/" "./data/")⟩
        ∧ ((staticAt "/static/" "./data/").handleRequest (fun _ => none) (fun _ => false)
            { uri := Bytes.lit "//static/x" }).2 = some (Bytes.lit "/./data/x")
        ∧ ¬Contained (Bytes.lit "./data/") (Bytes.lit "/./data/x") := by
  refine ⟨by decide +kernel, by decide +kernel, by decide +kernel, ?_⟩
  rintro ⟨suffix, heq, -⟩
  have hhead := congrArg List.head? heq
  simp [Bytes.lit] at hhead

end StaticRequestHandler

end Foxy
