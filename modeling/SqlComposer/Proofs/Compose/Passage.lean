import SqlComposer.Proofs.Compose.Outcome
import SqlComposer.Proofs.Directive.Detection
import SqlComposer.Proofs.Directive.Extent
import SqlComposer.Proofs.Template.Verbatim

/-! Text that passes through a compilation as it is. A script in which no tag opens comes out
unchanged, and so does a directive block; but the block is rendered with the rest of the script, so a
tag in it is a tag like any other. -/
namespace SqlComposer
open Template (Engine Untagged EndsFirmly settings small small_keepsText small_keepsFronts)

variable {engine : Engine} {loader : Loader} {limit : Nat} {o : Options} {script : String}
  {front rest : List Char}
  {x : Except TemplateFault String}

/-- What a text comes to with the names of a root, once everything below the root is composed. -/
def RendersInRoot (engine : Engine) (loader : Loader) (limit : Nat) (o : Options)
    (script text : String) (x : Except TemplateFault String) : Prop :=
  ∃ (d : Directives) (u : Unfolding) (ts : List (String × String)),
    Directives.parse script = .ok d ∧
    Unfolds loader o.environment (d.block o.environment).references u ∧ u.size+1 ≤ limit ∧
    u.Texts engine ts ∧ Renders engine (rootMeaning o (d.block o.environment).keywords ts) text x

/-- Once everything below it is composed, the root is rendered and nothing else is done. -/
theorem compile_eq_iff : compile engine loader limit o script = x.mapError (.template none) ↔
    RendersInRoot engine loader limit o script script x := by
  have hmap : ∀ y : Except TemplateFault String,
      y.mapError (ComposeError.template none) = x.mapError (.template none) → y = x := by
    intro y h
    cases x <;> cases y <;> cases h <;> rfl
  constructor
  · intro h
    obtain ⟨y, hy, hcompile⟩ | ⟨d, u, hd, hu, hlimit⟩ := compile_cases engine loader limit o script
    · rw [hcompile] at h
      cases x <;> cases h
      obtain ⟨r, z, hz⟩ | ⟨origin, z, hz⟩ | hz := firstFault_cases hy <;> cases hz
    · rw [compile_unfolded hd hu hlimit] at h
      cases ht : u.texts engine with
      | error rx =>
        rw [ht] at h
        cases x <;> cases h
      | ok ts =>
        rw [ht] at h
        refine ⟨d, u, ts, hd, hu, hlimit, (u.texts_eq_ok_iff ts).1 ht, ?_⟩
        rw [renders_iff (get?_composedContext o (d.block o.environment).keywords ts)]
        exact hmap _ h
  · rintro ⟨d, u, ts, hd, hu, hlimit, ht, hr⟩
    rw [renders_iff (get?_composedContext o (d.block o.environment).keywords ts)] at hr
    rw [compile_unfolded hd hu hlimit, (u.texts_eq_ok_iff ts).2 ht, ← hr]

theorem RendersInRoot.of_untagged (hengine : engine.KeepsText settings) {text : String}
    (h : Untagged text.toList) (hx : RendersInRoot engine loader limit o script text x) :
    x = .ok text := by
  obtain ⟨d, u, ts, -, -, -, -, context, -, hr⟩ := hx
  rw [← hr, Template.render_of_untagged hengine h]

/-- A script in which no tag opens comes out as it is, if it comes out; and one that does not begin
with a directive block does come out, whatever else is wrong with it. -/
theorem compile_untagged (hengine : engine.KeepsText settings) (h : Untagged script.toList)
    (loader : Loader) (limit : Nat) (o : Options) :
    (∀ out, compile engine loader limit o script = .ok out → out = script) ∧
    (¬ BeginsBlock (significant script) → 1 ≤ limit →
      compile engine loader limit o script = .ok script) := by
  constructor
  · intro out hout
    have hx : RendersInRoot engine loader limit o script script (.ok out) := compile_eq_iff.1 hout
    exact Except.ok.inj (hx.of_untagged hengine h)
  · intro hnone hlimit
    have hparse := Directives.parse_of_not_begins hnone
    have hreferences : (({} : Directives).block o.environment).references = [] := by
      cases o.environment <;> rfl
    have hu : Unfolds loader o.environment (({} : Directives).block o.environment).references
        .none := by
      rw [hreferences]
      exact .none
    refine (compile_eq_iff (x := .ok script)).2 ⟨{}, .none, [], hparse, hu, hlimit, .none, ?_⟩
    rw [renders_iff (get?_composedContext o _ []), Template.render_of_untagged hengine h]

/-- That it does not begin with a block includes malformed SQL, which is not even tokens. -/
theorem compile_untagged_malformed :
    let script := "\ufeffselect 'a \x7b% x \x7b#\n\n"
    small.KeepsText settings ∧ Untagged script.toList ∧ ¬ BeginsBlock (significant script) ∧
      compile small (.ofStore [] []) 1 ({} : Options) script = .ok script := by
  intro script
  have h : Untagged script.toList := by decide +kernel
  have hnone : ¬ BeginsBlock (significant script) := by
    unfold BeginsBlock
    decide +kernel
  exact ⟨small_keepsText, h, hnone, (compile_untagged small_keepsText h _ 1 {}).2 hnone (Nat.le_refl 1)⟩

/-- A firm front without tags is put before what the rest comes to, and that decides all else. -/
theorem compile_append_iff (hengine : engine.KeepsFronts settings)
    (hs : script.toList = front ++ rest) (h : Untagged front) (hfirm : EndsFirmly front) :
    compile engine loader limit o script = x.mapError (.template none) ↔
      ∃ y, RendersInRoot engine loader limit o script (.ofList rest) y ∧
        x = y.map (.ofList front ++ ·) := by
  have hscript : script = .ofList (front ++ rest) := by rw [← hs, String.ofList_toList]
  have hrender : ∀ context, Template.render engine context script =
      (Template.render engine context (.ofList rest)).map (.ofList front ++ ·) := by
    intro context
    rw [hscript, Template.render_append hengine h hfirm]
  rw [compile_eq_iff]
  constructor
  · rintro ⟨d, u, ts, hd, hu, hlimit, ht, context, hcontext, hr⟩
    exact ⟨_, ⟨d, u, ts, hd, hu, hlimit, ht, context, hcontext, rfl⟩, by rw [← hr, hrender]⟩
  · rintro ⟨y, ⟨d, u, ts, hd, hu, hlimit, ht, context, hcontext, hr⟩, rfl⟩
    exact ⟨d, u, ts, hd, hu, hlimit, ht, context, hcontext, by rw [hrender, hr]⟩

/-- A front of a script comes out as it is, and rendering the root fails only where the text behind
that front is at fault. -/
structure KeepsFront (engine : Engine) (script : String) (front rest : List Char) : Prop where
  text : ∀ loader limit o out, compile engine loader limit o script = .ok out → front <+: out.toList
  fault : ∀ loader limit o y, compile engine loader limit o script = .error (.template none y) →
    RendersInRoot engine loader limit o script (.ofList rest) (.error y)

theorem keepsFront (hengine : engine.KeepsFronts settings) (hs : script.toList = front ++ rest)
    (h : Untagged front) (hfirm : EndsFirmly front) : KeepsFront engine script front rest := by
  constructor
  · intro loader limit o out hout
    obtain ⟨y, -, hy⟩ := (compile_append_iff (x := .ok out) hengine hs h hfirm).1 hout
    cases y with
    | error y => cases hy
    | ok below =>
      cases hy
      rw [String.toList_append, String.toList_ofList]
      exact List.prefix_append ..
  · intro loader limit o y hy
    obtain ⟨z, hz, he⟩ := (compile_append_iff (x := .error y) hengine hs h hfirm).1 hy
    cases z with
    | error z =>
      cases he
      exact hz
    | ok below => cases he

/-- A directive block comes out as it is, through its closing bracket, if no tag opens in it. -/
theorem compile_keeps_block (hengine : engine.KeepsFronts settings) {s : Script} {closing : Token}
    (h : Script.ofText script = .ok s) (hc : s.closing = some closing) :
    ∃ front rest, script.toList = front ++ ']' :: rest ∧
      closing.start.offset = byteSize front ∧
      (Untagged (front ++ [']']) → KeepsFront engine script (front ++ [']']) rest) := by
  obtain ⟨block, us, description, lines, hsig, hform, -⟩ := Script.exists_form_of_ofText h hc
  have hmem : closing ∈ significant script := by simp [hsig]
  obtain ⟨front, rest, hsplit, hoffset⟩ := exists_place hmem hform.kind_closing
  refine ⟨front, rest, hsplit, hoffset, fun hblock => keepsFront hengine (by simp [hsplit]) hblock ?_⟩
  intro c hlast
  rw [List.getLast?_concat] at hlast
  cases hlast
  decide

/-- Marks that open nothing do no harm in a block. -/
theorem compile_keeps_block_marked :
    let script := "/* [sqlmbegin] [script] - description: \"\x7b% x \x7b#\" [sqlmend] */ select 1"
    small.KeepsFronts settings ∧
    ∃ s closing front rest, Script.ofText script = .ok s ∧ s.closing = some closing ∧
      closing.start.offset = byteSize front ∧ Untagged (front ++ [']']) ∧
      KeepsFront small script (front ++ [']']) rest := by
  intro script
  have hread : ((Script.ofText script).toOption.bind (·.closing)).isSome = true := by
    decide +kernel
  obtain ⟨closing, hc⟩ := Option.isSome_iff_exists.1 hread
  obtain ⟨s, hs, hc⟩ := Option.bind_eq_some_iff.1 hc
  have h := eq_ok_of_toOption hs
  obtain ⟨front, rest, hsplit, hoffset, hkeeps⟩ := compile_keeps_block small_keepsFronts h hc
  have hall : Untagged script.toList := by decide +kernel
  have hblock : Untagged (front ++ [']']) := hall.of_infix ⟨[], rest, by simp [hsplit]⟩
  exact ⟨small_keepsFronts, s, closing, front, rest, h, hc, hoffset, hblock, hkeeps hblock⟩

/-- But a tag in a description is a tag: its text is lost, or the script cannot be rendered, though
nothing is wrong with it behind the block. -/
theorem not_keepsFront_described :
    let front (text : String) :=
      ("/* [sqlmbegin] [script] - description: \"" ++ text ++ "\" [sqlmend").toList
    let rest := " */ select 1".toList
    let script (text : String) := String.ofList (front text ++ ']' :: rest)
    let lost := "uses \x7b\x7b x \x7d\x7d"
    let spoiled := "\x7b\x7b"
    (∀ text ∈ [lost, spoiled],
      ((Script.ofText (script text)).toOption.bind (·.closing)).map (·.start.offset) =
        some (byteSize (front text))) ∧
    ¬ KeepsFront small (script lost) (front lost ++ [']']) rest ∧
    ¬ KeepsFront small (script spoiled) (front spoiled ++ [']']) rest := by
  intro front rest script lost spoiled
  refine ⟨by decide +kernel, fun h => ?_, fun h => ?_⟩
  · have hout : (compile small (.ofStore [] []) 1 {} (script lost)).toOption =
        some "/* [sqlmbegin] [script] - description: \"uses \" [sqlmend] */ select 1" := by
      decide +kernel
    have hprefix := h.text _ _ _ _ (eq_ok_of_toOption hout)
    exact absurd hprefix (by decide +kernel)
  · have hcompile : compile small (.ofStore [] []) 1 {} (script spoiled) =
        .error (.template none .malformed) := eq_error_of_match (by decide +kernel)
    have hbelow := (h.fault _ _ _ _ hcompile).of_untagged small_keepsText (by decide +kernel)
    cases hbelow
end SqlComposer
