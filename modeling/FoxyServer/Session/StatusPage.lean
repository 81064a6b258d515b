import FoxyServer.Library.Markup
import FoxyServer.Session.Counting

/-!
This module contains the tags of the status page. The requests that have been counted are shown with their
uris as they are, so a uri can bring tags of its own onto the page.
-/

namespace Foxy

open Markup

namespace DataCollector

def after (registrations : List (Bytes × Bytes)) (history : List (Bytes × Response.StatusCode))
    : DataCollector :=
  history.foldl (fun collector (uri, code) => collector.incrementRequest uri code)
    (registrations.foldl (fun collector (path, handlerName) => collector.addHandler path handlerName) {})

def entries (collector : DataCollector) : List (Bytes × Bytes × Int) :=
  collector.statusMap.entries.flatMap (fun (uri, counters) =>
    counters.entries.map (fun counter => (uri, counter)))

theorem mem_entries {collector : DataCollector} {uri code : Bytes} {times : Int}
    : (uri, code, times) ∈ collector.entries ↔ Tally.entry collector.statusMap uri code = some times := by
  simp only [entries, List.mem_flatMap, List.mem_map, Prod.mk.injEq, Tally.entry, Option.bind_eq_some_iff]
  constructor
  . rintro ⟨⟨uri', counters⟩, hrow, counter, hcounter, rfl, rfl⟩
    exact ⟨counters, OrdMap.find?_eq_some_iff.mpr hrow, OrdMap.find?_eq_some_iff.mpr hcounter⟩
  . rintro ⟨counters, hrow, hcounter⟩
    exact ⟨(uri, counters), OrdMap.find?_eq_some_iff.mp hrow, (code, times),
      OrdMap.find?_eq_some_iff.mp hcounter, rfl, rfl⟩

theorem statusMap_foldl_addHandler (registrations : List (Bytes × Bytes)) (collector : DataCollector)
    : (registrations.foldl (fun collector (path, handlerName) => collector.addHandler path handlerName)
        collector).statusMap = collector.statusMap := by
  induction registrations generalizing collector with
  | nil => rfl
  | cons registration registrations ih => exact ih _

theorem uriRequestHandler_foldl_incrementRequest (history : List (Bytes × Response.StatusCode))
    (collector : DataCollector)
    : (history.foldl (fun collector (uri, code) => collector.incrementRequest uri code)
        collector).uriRequestHandler = collector.uriRequestHandler := by
  induction history generalizing collector with
  | nil => rfl
  | cons e history ih => exact ih _

theorem counts_foldl_incrementRequest {pairs : List (Bytes × Bytes)} {collector : DataCollector}
    (h : Tally.Counts collector.statusMap pairs) (history : List (Bytes × Response.StatusCode))
    : Tally.Counts (history.foldl (fun collector (uri, code) => collector.incrementRequest uri code)
        collector).statusMap
        (pairs ++ history.map (fun (uri, code) => (uri, statusString.sentCode code))) := by
  induction history generalizing collector pairs with
  | nil =>
    rw [List.map_nil, List.append_nil]
    exact h
  | cons e history ih =>
    have hnext : Tally.Counts (collector.incrementRequest e.1 e.2).statusMap
        (pairs ++ [(e.1, statusString.sentCode e.2)]) := by
      rw [statusMap_incrementRequest]
      exact h.increment _ _
    have hrest := ih hnext
    rw [List.append_assoc] at hrest
    exact hrest

theorem counts_after (registrations : List (Bytes × Bytes)) (history : List (Bytes × Response.StatusCode))
    : Tally.Counts (after registrations history).statusMap
        (history.map (fun (uri, code) => (uri, statusString.sentCode code))) := by
  apply @counts_foldl_incrementRequest []
  rw [statusMap_foldl_addHandler]
  exact Tally.counts_empty

theorem uriRequestHandler_after (registrations : List (Bytes × Bytes))
    (history history' : List (Bytes × Response.StatusCode))
    : (after registrations history).uriRequestHandler = (after registrations history').uriRequestHandler := by
  rw [after, uriRequestHandler_foldl_incrementRequest, after, uriRequestHandler_foldl_incrementRequest]

theorem mem_entries_after {registrations : List (Bytes × Bytes)}
    {history : List (Bytes × Response.StatusCode)} {uri code : Bytes}
    : (∃ times, (uri, code, times) ∈ (after registrations history).entries)
        ↔
      ∃ status, (uri, status) ∈ history ∧ statusString.sentCode status = code := by
  simp only [mem_entries, (counts_after registrations history).entry]
  constructor
  . rintro ⟨times, htimes⟩
    split_ifs at htimes with hmem
    rcases List.mem_map.mp hmem with ⟨e, he, heq⟩
    simp only [Prod.mk.injEq] at heq
    rcases heq with ⟨rfl, rfl⟩
    exact ⟨e.2, he, rfl⟩
  . rintro ⟨status, hmem, rfl⟩
    rw [if_pos (List.mem_map.mpr ⟨(uri, status), hmem, rfl⟩)]
    exact ⟨_, rfl⟩

end DataCollector

namespace statusResponse

def behindUri (counter : Bytes × Int) : Bytes :=
  Bytes.lit " with status code " ++ counter.1 ++ Bytes.lit " : " ++ Bytes.ofInt counter.2

theorem requestLine_eq (uri : Bytes) (counter : Bytes × Int)
    : requestLine uri counter
        =
      Bytes.lit "<p>" ++ (Bytes.lit "Number of request received from URI " ++
        (uri ++ (behindUri counter ++ Bytes.lit "</p>"))) := by
  have hbegin : Bytes.lit "<p>Number of request received from URI "
      = Bytes.lit "<p>" ++ Bytes.lit "Number of request received from URI " := by
    decide
  simp only [requestLine, behindUri, hbegin, List.append_assoc]

theorem ne_lessThan_of_isDigit {c : Char} (h : c.isDigit = true) : c.toUInt8 ≠ lessThan := by
  intro heq
  have hval := congrArg UInt8.toNat heq
  have hless : lessThan.toNat = 60 := rfl
  have hzero : ('0'.val).toNat = 48 := rfl
  have hnine : ('9'.val).toNat = 57 := rfl
  simp only [Char.isDigit, Bool.and_eq_true, decide_eq_true_eq, ge_iff_le, UInt32.le_iff_toNat_le] at h
  rw [hless, Char.toUInt8, UInt32.toNat_toUInt8] at hval
  omega

theorem lessThan_notMem_ofInt (n : Int) : lessThan ∉ Bytes.ofInt n := by
  have hdigits : lessThan ∉ Bytes.toDecimal n.natAbs := by
    intro hmem
    rcases List.mem_map.mp hmem with ⟨c, hc, heq⟩
    exact ne_lessThan_of_isDigit (Nat.isDigit_of_mem_toDigits (by decide) (by decide) hc) heq
  rw [Bytes.ofInt]
  split_ifs
  . rw [List.mem_cons, not_or]
    exact ⟨by decide, hdigits⟩
  . exact hdigits

theorem lessThan_notMem_sentCode (code : Response.StatusCode) : lessThan ∉ statusString.sentCode code := by
  rw [← DataCollector.mapStatusToString_eq]
  have hother : lessThan ∉ Bytes.lit "500" := by decide
  cases code with
  | other value => exact hother
  | _ => decide

theorem isTag_paragraph : IsTag (Bytes.lit "<p>") where
  opens := by decide
  ends := ⟨Bytes.lit "p", by decide, by decide⟩

theorem isTag_paragraphEnd : IsTag (Bytes.lit "</p>") where
  opens := by decide
  ends := ⟨Bytes.lit "/p", by decide, by decide⟩

theorem tags_requestLine (uri : Bytes) (counter : Bytes × Int)
    : tags (requestLine uri counter)
        = Bytes.lit "<p>" :: tags (uri ++ (behindUri counter ++ Bytes.lit "</p>")) := by
  have hclosed : Closed (Bytes.lit "<p>") := ⟨Bytes.lit "<p", by decide⟩
  rw [requestLine_eq, tags_append hclosed, tags_tag isTag_paragraph, tags, tagsFrom_text (by decide)]
  rfl

def pageFront : Bytes :=
  Bytes.lit "<!DOCTYPE html><html><body>" ++ Bytes.lit "<head><title>Server Status</title></head>"
    ++ Bytes.lit "<h1>Count for server's request and response</h1>"

def pageBack (uriRequestHandler : OrdMap Bytes Bytes) : Bytes :=
  Bytes.lit "<h1>Path to RequestHandler</h1>" ++ uriRequestHandler.entries.flatMap handlerLine
    ++ Bytes.lit "</body></html>"

def lineTags (e : Bytes × Bytes × Int) : List Bytes :=
  tags (requestLine e.1 e.2)

theorem createBody_eq (collector : DataCollector)
    : createBody collector
        =
      pageFront ++ (collector.entries.flatMap (fun e => requestLine e.1 e.2) ++
        pageBack collector.uriRequestHandler) := by
  have hentries : collector.entries.flatMap (fun e => requestLine e.1 e.2)
      = collector.statusMap.entries.flatMap (fun (uri, counters) =>
        counters.entries.flatMap (requestLine uri)) := by
    rw [DataCollector.entries, List.flatMap_assoc]
    simp only [List.flatMap_map]
  rw [hentries]
  simp only [createBody, pageFront, pageBack, List.append_assoc]

theorem closed_requestLine (e : Bytes × Bytes × Int) : Closed (requestLine e.1 e.2) := by
  have hend : Bytes.lit "</p>" = Bytes.lit "</p" ++ [greaterThan] := by decide
  rw [requestLine, hend, ← List.append_assoc]
  exact ⟨_, rfl⟩

theorem closed_pageFront : Closed pageFront := by
  have hend : Bytes.lit "<h1>Count for server's request and response</h1>"
      = Bytes.lit "<h1>Count for server's request and response</h1" ++ [greaterThan] := by
    decide
  rw [pageFront, hend, ← List.append_assoc]
  exact ⟨_, rfl⟩

theorem tags_createBody (collector : DataCollector)
    : tags (createBody collector)
        =
      tags pageFront ++ (collector.entries.flatMap lineTags ++
        tags (pageBack collector.uriRequestHandler)) := by
  rw [createBody_eq, tags_append closed_pageFront, tags_flatMap closed_requestLine]
  rfl

/-! ## Uris that open tags -/

theorem lessThan_notMem_behindUri {counter : Bytes × Int} (h : lessThan ∉ counter.1)
    : lessThan ∉ behindUri counter := by
  have hstatus : lessThan ∉ Bytes.lit " with status code " := by decide
  have hsemicolon : lessThan ∉ Bytes.lit " : " := by decide
  simp only [behindUri, List.mem_append, not_or]
  exact ⟨⟨⟨hstatus, h⟩, hsemicolon⟩, lessThan_notMem_ofInt counter.2⟩

theorem lineTags_of_not_opensTag {e : Bytes × Bytes × Int} (hcode : lessThan ∉ e.2.1) (h : ¬OpensTag e.1)
    : lineTags e = [Bytes.lit "<p>", Bytes.lit "</p>"] := by
  have hbehind : ∃ b ∈ (behindUri e.2).head?, ¬TagStart b := ⟨' '.toUInt8, rfl, by decide⟩
  rw [lineTags, tags_requestLine,
    tags_of_not_opensTag isTag_paragraphEnd h (lessThan_notMem_behindUri hcode) hbehind]

theorem loud_lineTags {e : Bytes × Bytes × Int} (h : OpensTag e.1)
    : Loud (Bytes.lit "<p>") (Bytes.lit "</p>") (lineTags e) := by
  rw [lineTags, tags_requestLine]
  rcases tags_of_opensTag isTag_paragraphEnd h (behindUri e.2) with hmore | ⟨tag, htag, hne⟩
  . left
    rw [List.length_cons]
    omega
  . right
    rw [htag]
    exact ⟨tag, rfl, hne⟩

theorem lineTags_eq_iff {e : Bytes × Bytes × Int} (hcode : lessThan ∉ e.2.1)
    : lineTags e = [Bytes.lit "<p>", Bytes.lit "</p>"] ↔ ¬OpensTag e.1 := by
  constructor
  . intro h hopens
    rcases loud_lineTags hopens with hmore | ⟨tag, htag, hne⟩
    . rw [h] at hmore
      simp only [List.length_cons, List.length_nil] at hmore
      omega
    . rw [h] at htag
      simp only [List.cons.injEq, and_true, true_and] at htag
      exact hne htag.symm
  . exact lineTags_of_not_opensTag hcode

def Plain (history : List (Bytes × Response.StatusCode)) : Prop :=
  ∀ e ∈ history, ¬OpensTag e.1

theorem lessThan_notMem_code {registrations : List (Bytes × Bytes)}
    {history : List (Bytes × Response.StatusCode)} {e : Bytes × Bytes × Int}
    (h : e ∈ (DataCollector.after registrations history).entries) : lessThan ∉ e.2.1 := by
  rcases DataCollector.mem_entries_after.mp ⟨e.2.2, h⟩ with ⟨status, -, hcode⟩
  rw [← hcode]
  exact lessThan_notMem_sentCode status

theorem plain_iff_entries (registrations : List (Bytes × Bytes))
    (history : List (Bytes × Response.StatusCode))
    : Plain history
        ↔
      ∀ e ∈ (DataCollector.after registrations history).entries,
        lineTags e = [Bytes.lit "<p>", Bytes.lit "</p>"] := by
  constructor
  . intro h e he
    rw [lineTags_eq_iff (lessThan_notMem_code he)]
    rcases DataCollector.mem_entries_after.mp ⟨e.2.2, he⟩ with ⟨status, hmem, -⟩
    exact h (e.1, status) hmem
  . intro h e he
    rcases (@DataCollector.mem_entries_after registrations history e.1 _).mpr ⟨e.2, he, rfl⟩
      with ⟨times, hmem⟩
    exact (lineTags_eq_iff (lessThan_notMem_code hmem)).mp (h _ hmem)

theorem plain_of_lineTags_eq {registrations : List (Bytes × Bytes)}
    {history history' : List (Bytes × Response.StatusCode)} (h' : Plain history')
    (hlength : (DataCollector.after registrations history).entries.length
      = (DataCollector.after registrations history').entries.length)
    (heq : (DataCollector.after registrations history).entries.flatMap lineTags
      = (DataCollector.after registrations history').entries.flatMap lineTags) : Plain history := by
  rw [plain_iff_entries registrations]
  apply not_loud_of_flatMap_eq _ ((plain_iff_entries registrations history').mp h') hlength heq
  intro e he
  by_cases hopens : OpensTag e.1
  . exact .inr (loud_lineTags hopens)
  . exact .inl (lineTags_of_not_opensTag (lessThan_notMem_code he) hopens)

theorem flatMap_lineTags_of_plain {registrations : List (Bytes × Bytes)}
    {history : List (Bytes × Response.StatusCode)} (h : Plain history)
    : (DataCollector.after registrations history).entries.flatMap lineTags
        = (List.replicate (DataCollector.after registrations history).entries.length
          [Bytes.lit "<p>", Bytes.lit "</p>"]).flatten := by
  rw [List.flatMap_def, List.map_eq_replicate_iff.mpr ((plain_iff_entries registrations history).mp h)]

/--
Two histories with as many entries give pages with the same tags exactly if the uris of neither open a tag, or
those of both do and bring the same tags onto the page.
-/
theorem tags_createBody_eq_iff (registrations : List (Bytes × Bytes))
    (history history' : List (Bytes × Response.StatusCode))
    (hlength : (DataCollector.after registrations history).entries.length
      = (DataCollector.after registrations history').entries.length)
    : tags (createBody (DataCollector.after registrations history))
          = tags (createBody (DataCollector.after registrations history'))
        ↔
      Plain history ∧ Plain history'
        ∨ ¬Plain history ∧ ¬Plain history'
          ∧ (DataCollector.after registrations history).entries.flatMap lineTags
            = (DataCollector.after registrations history').entries.flatMap lineTags := by
  rw [tags_createBody, tags_createBody, List.append_cancel_left_eq,
    DataCollector.uriRequestHandler_after registrations history history', List.append_cancel_right_eq]
  constructor
  . intro heq
    by_cases hplain : Plain history
    . exact .inl ⟨hplain, plain_of_lineTags_eq hplain hlength.symm heq.symm⟩
    . exact .inr ⟨hplain, fun hplain' => hplain (plain_of_lineTags_eq hplain' hlength heq), heq⟩
  . rintro (⟨hplain, hplain'⟩ | ⟨-, -, heq⟩)
    . rw [flatMap_lineTags_of_plain hplain, flatMap_lineTags_of_plain hplain', hlength]
    . exact heq

theorem tags_createBody_eq_plain
    : tags (createBody (DataCollector.after [] [(Bytes.lit "/a", .ok)]))
        = tags (createBody (DataCollector.after [] [(Bytes.lit "/b>", .notFound)])) := by
  apply (tags_createBody_eq_iff [] _ _ (by decide)).mpr
  exact .inl ⟨by unfold Plain; decide, by unfold Plain; decide⟩

/-- A request for `/<b>` makes what follows it on the page bold. -/
theorem tags_createBody_ne
    : ¬∀ (registrations : List (Bytes × Bytes)) (history history' : List (Bytes × Response.StatusCode)),
        (∀ e ∈ history ++ history', ∀ b ∈ e.1, Grammar.UriChar b) →
        (DataCollector.after registrations history).entries.length
          = (DataCollector.after registrations history').entries.length →
        tags (createBody (DataCollector.after registrations history))
          = tags (createBody (DataCollector.after registrations history')) := by
  intro h
  have htags := h [] [(Bytes.lit "/<b>", .notFound)] [(Bytes.lit "/b", .notFound)] (by decide +kernel)
    (by decide)
  revert htags
  decide

end statusResponse

end Foxy
