import SqlComposer.Proofs.Compose.Loading
import SqlComposer.Proofs.Store.Writing
import SqlComposer.Proofs.Watch.Session
import SqlComposer.Template.Reader

/-! No write is lost, though signals are. A signal is dropped only when others wait, and whoever
takes one of these reads the input later. So the recompiler reads what was written last, and unless
something is in the way that is what ends up compiled in the output. -/
namespace SqlComposer
namespace Channel
variable {c d : Channel}

theorem receiving_notify (c : Channel) : c.notify.2.receiving = c.receiving := by
  unfold notify; split <;> rfl

/-- Whether or not a signal is accepted, one waits. -/
theorem queued_notify_pos (h : c.receiving = true) : 0 < c.notify.2.queued := by
  unfold notify
  split
  · exact Nat.succ_pos _
  · next full =>
    rw [h, Bool.true_and, decide_eq_true_eq, Nat.not_lt] at full
    exact Nat.lt_of_lt_of_le (by decide : 0 < capacity) full

theorem receive?_eq_some_iff : c.receive? = some d ↔
    c.receiving = true ∧ 0 < c.queued ∧ { c with queued := c.queued - 1 } = d := by
  simp only [receive?, Option.ite_none_right_eq_some, Option.some.injEq, Bool.and_eq_true,
    decide_eq_true_eq, and_assoc]

theorem receiving_of_receive? (h : c.receive? = some d) : d.receiving = c.receiving := by
  obtain ⟨-, -, rfl⟩ := receive?_eq_some_iff.mp h
  rfl

/-- Taking a signal takes one that waits. -/
theorem queued_of_receive? (h : c.receive? = some d) : d.queued + 1 = c.queued := by
  obtain ⟨-, hpos, rfl⟩ := receive?_eq_some_iff.mp h
  exact Nat.sub_add_cancel hpos

theorem queued_receive?_le (h : c.receive? = some d) : d.queued ≤ c.queued :=
  Nat.le_of_succ_le (Nat.le_of_eq (queued_of_receive? h))

end Channel

namespace Session
variable {r : Recompiler} {s t u : Session}

/-- A signal that was sent makes the recompiler read: it has read since, or is about to read, or
will take a signal. -/
structure Heard (done : List Action) (s : Session) : Prop where
  receiving : s.channel.receiving = true
  returned : s.phase = .returned → s.senders = 0 ∧ s.channel.queued = 0
  notified : .notify ∈ done → .read ∈ done ∨ s.phase = .signalled ∨ 0 < s.channel.queued

theorem Heard.step {done : List Action} {a : Action} (h : Heard done s) (hstep : Step r s a t) :
    Heard (done ++ [a]) t := by
  obtain ⟨hr, he, hn⟩ := h
  refine ⟨?_, ?_, ?_⟩
  · cases hstep with
    | notify => exact (Channel.receiving_notify _).trans hr
    | take _ hc => exact (Channel.receiving_of_receive? hc).trans hr
    | _ => exact hr
  · cases hstep with
    | write => exact he
    | notify hs | join hs | leave hs =>
      -- nobody is there to do this once the recompiler has returned
      intro hp
      rw [(he hp).1] at hs
      cases hs
    | stop _ hs hq => exact fun _ => ⟨hs, hq⟩
    | _ => intro hp; cases hp
  · have hdone (b : Action) : b ∈ done ++ [a] ↔ b ∈ done ∨ b = a := by simp
    rw [hdone, hdone]
    cases hstep with
    | notify => exact fun _ => .inr (.inr (Channel.queued_notify_pos hr))
    | take => exact fun _ => .inr (.inl rfl)
    | read | unread => exact fun _ => .inl (.inr rfl)
    | write | join | leave =>
      rintro (hd | hd)
      · exact (hn hd).imp_left .inl
      · cases hd
    | compile hp | uncompiled hp | store hp | unstored hp | stop hp =>
      rintro (hd | hd)
      · rcases hn hd with hread | hsig | hq
        · exact .inl (.inl hread)
        · cases hp.symm.trans hsig
        · exact .inr (.inr hq)
      · cases hd

theorem Heard.run {actions : List Action} (hs : Heard [] s) (h : run? r s actions = some t) :
    Heard actions t :=
  run_induction h hs fun _ _ _ _ _ _ hu hstep => hu.step hstep

theorem heard_start (files : FileTree) (senders : Nat) : Heard [] (start files senders) where
  receiving := rfl
  returned hp := by cases hp
  notified hn := by cases hn

theorem signalled_of_run {actions : List Action} (hs : s.phase = .signalled)
    (hr : .read ∉ actions) (h : run? r s actions = some t) : t.phase = .signalled := by
  -- only reading ends this phase
  refine run_induction (P := fun done u => .read ∉ done → u.phase = .signalled) h (fun _ => hs)
    (fun done a u v _ _ hu hstep hread => ?_) hr
  have hp := hu fun h => hread (List.mem_append_left _ h)
  cases hstep with
  | write | notify | join | leave => exact hp
  | read | unread => exact absurd (by simp) hread
  | take hp' | compile hp' | uncompiled hp' | store hp' | unstored hp' | stop hp' =>
    cases hp.symm.trans hp'

theorem exists_last_of_mem {α : Type} {a : α} {xs : List α} (h : a ∈ xs) :
    ∃ front back, xs = front ++ a :: back ∧ a ∉ back := by
  obtain ⟨ys, zs, hxs, hys⟩ := List.eq_append_cons_of_mem (List.mem_reverse.mpr h)
  refine ⟨zs.reverse, ys.reverse, ?_, fun hm => hys (List.mem_reverse.mp hm)⟩
  rw [← List.reverse_reverse xs, hxs]
  simp

/-- Once all is done, whoever notified is followed by a reading that is the last. -/
theorem exists_last_read {actions : List Action} (hs : Heard [] s)
    (h : run? r s actions = some t) (hn : .notify ∈ actions) (ht : t.phase = .returned) :
    ∃ front back, actions = front ++ .read :: back ∧ .take ∉ back ∧ .read ∉ back := by
  have hheard := hs.run h
  have hread : .read ∈ actions := by
    rcases hheard.notified hn with hread | hsig | hq
    · exact hread
    · cases ht.symm.trans hsig
    · rw [(hheard.returned ht).2] at hq; cases hq
  obtain ⟨front, back, rfl, hback⟩ := exists_last_of_mem hread
  refine ⟨front, back, rfl, fun htake => ?_, hback⟩
  -- behind a signal that is taken there would be a reading
  obtain ⟨mid, rest, rfl⟩ := List.append_of_mem htake
  rw [show front ++ Action.read :: (mid ++ .take :: rest) =
    (front ++ .read :: mid) ++ .take :: rest by simp, run?_append] at h
  obtain ⟨u, -, h⟩ := Option.bind_eq_some_iff.mp h
  rw [run?_cons] at h
  obtain ⟨v, hv, h⟩ := Option.bind_eq_some_iff.mp h
  cases step?_eq_some_iff.mp hv with
  | take =>
    cases ht.symm.trans (signalled_of_run rfl (fun hm => hback (by simp [hm])) h)

/-! While the input is not written to, all that changes is the text of the output. -/

theorem sameBut_of_run {actions : List Action} {slot : List String}
    (hplace : s.files.place r.output = .ok slot) (hfree : s.files.isDirectory slot = false)
    (hw : ∀ content, .write content ∉ actions) (h : run? r s actions = some t) :
    FileTree.SameBut slot s.files t.files := by
  refine run_induction (P := fun _ u => FileTree.SameBut slot s.files u.files) h (.refl hfree)
    fun done a u v hdone _ hu hstep => ?_
  cases hstep with
  | @write later => exact absurd (hdone.subset (List.mem_append_right _ List.mem_cons_self)) (hw later)
  | @store text files _ hstore =>
    obtain ⟨names, hnames, hd, rfl⟩ := FileTree.write_eq_ok_iff.mp hstore
    rw [hu.place_eq hplace] at hnames
    cases hnames
    exact hu.trans (FileTree.sameBut_put hd text)
  | _ => exact hu

/-- Some content can be read, compiled and stored. -/
structure Settled (r : Recompiler) (content text : String) (slot : List String)
    (files : FileTree) : Prop where
  input : files.read r.input = .ok content
  output : files.place r.output = .ok slot
  free : files.isDirectory slot = false
  compiles : compile r.engine (r.loader files.read) r.limit r.options content = .ok text

/-- The content has been read, and is on its way to the output or there. -/
def Serving (content text : String) (slot : List String) (s : Session) : Prop :=
  s.phase = .loaded content ∨ s.phase = .compiled text ∨
    (s.phase = .waiting ∨ s.phase = .returned) ∧ s.files.node? slot = some (.text text)

variable {content text : String} {slot : List String}

theorem Settled.write (hs : Settled r content text slot s.files) :
    s.files.write r.output text = .ok (s.files.put slot (.text text)) :=
  FileTree.write_eq_ok_iff.mpr ⟨slot, hs.output, hs.free, rfl⟩

theorem Serving.step {a : Action} (hs : Settled r content text slot s.files)
    (h : Serving content text slot s) (hstep : Step r s a t) (hw : ∀ later, a ≠ .write later)
    (ht : a ≠ .take) (hr : a ≠ .read) : Serving content text slot t := by
  cases hstep with
  | write => exact absurd rfl (hw _)
  | take => exact absurd rfl ht
  | read | unread => exact absurd rfl hr
  | notify | join | leave => exact h
  | compile hp hc =>
    obtain rfl : _ = content := by simpa [Serving, hp] using h
    cases hs.compiles.symm.trans hc
    exact .inr (.inl rfl)
  | uncompiled hp hc =>
    obtain rfl : _ = content := by simpa [Serving, hp] using h
    cases hs.compiles.symm.trans hc
  | store hp hstore =>
    obtain rfl : _ = text := by simpa [Serving, hp] using h
    cases hs.write.symm.trans hstore
    exact .inr (.inr ⟨.inl rfl, FileTree.node?_put_text hs.free⟩)
  | unstored hp hstore =>
    obtain rfl : _ = text := by simpa [Serving, hp] using h
    cases hs.write.symm.trans hstore
  | stop hp => exact .inr (.inr ⟨.inr rfl, by simpa [Serving, hp] using h⟩)

/-- While some steps are taken, nothing changes for the fragments of a script. -/
def KeepsFragments (r : Recompiler) (s : Session) (actions : List Action) (script : String) :
    Prop :=
  ∀ front t, front <+: actions → run? r s front = some t →
    AgreeOn (compileTraced r.engine (r.loader s.files.read) r.limit r.options script)
      (r.loader s.files.read) (r.loader t.files.read)

/-- Fragments are kept in files that are neither written to nor the output. -/
theorem keepsFragments_ofFiles {actions : List Action} {script base : String}
    {lookup : Loader.Lookup} (hl : ∀ read, r.loader read = Loader.ofFiles read base lookup)
    (hout : s.files.place r.output = .ok slot) (hfree : s.files.isDirectory slot = false)
    (hw : ∀ content, .write content ∉ actions)
    (hf : ∀ path, .file path ∈
        asked (compileTraced r.engine (r.loader s.files.read) r.limit r.options script) →
      (∃ text, s.files.read (Path.join base path) = .ok text) ∧
        s.files.resolve (Path.join base path) ≠ .ok slot) :
    KeepsFragments r s actions script := by
  intro front t hfront hrun source hsource
  have hsame := sameBut_of_run hout hfree (fun content hm => hw content (hfront.subset hm)) hrun
  rw [hl, hl]
  cases source with
  | named name => rfl
  | file path =>
    obtain ⟨⟨text, hread⟩, hne⟩ := hf path hsource
    simp only [Loader.ofFiles, hread, hsame.read_eq hread hne]

theorem Settled.run {actions done : List Action} (hs : Settled r content text slot s.files)
    (hne : s.files.resolve r.input ≠ .ok slot) (hw : ∀ later, .write later ∉ actions)
    (hkeep : KeepsFragments r s actions content) (hdone : done <+: actions)
    (h : run? r s done = some t) : Settled r content text slot t.files := by
  have hsame := sameBut_of_run hs.output hs.free (fun later hm => hw later (hdone.subset hm)) h
  refine ⟨hsame.read_eq hs.input hne, hsame.place_eq hs.output, hsame.behind, ?_⟩
  unfold compile
  rw [compileTraced_congr (hkeep done t hdone h)]
  exact hs.compiles

/-- What is ready to be compiled when the input is read for the last time ends in the output. -/
theorem stored_of_last_read {front back : List Action}
    (hs : Settled r content text slot s.files) (hne : s.files.resolve r.input ≠ .ok slot)
    (hw : ∀ later, .write later ∉ front ++ .read :: back)
    (hkeep : KeepsFragments r s (front ++ .read :: back) content)
    (htake : .take ∉ back) (hread : .read ∉ back)
    (h : run? r s (front ++ .read :: back) = some t) (ht : t.phase = .returned) :
    t.files.read r.output = .ok text := by
  have hsettled {done : List Action} {v : Session} (hdone : done <+: front ++ .read :: back)
      (hv : run? r s done = some v) : Settled r content text slot v.files :=
    hs.run hne hw hkeep hdone hv
  have happ (done : List Action) : run? r s (front ++ .read :: done) =
      (run? r s (front ++ [.read])).bind fun v => run? r v done := by
    rw [← run?_append, List.append_assoc, List.singleton_append]
  have hback := (happ back).symm.trans h
  obtain ⟨v, hv, hback⟩ := Option.bind_eq_some_iff.mp hback
  -- the last reading finds the content, and what follows takes it to the output
  have hloaded : v.phase = .loaded content := by
    obtain ⟨w, hfront, hstep⟩ := run?_concat.mp hv
    have hinput := (hsettled (List.prefix_append ..) hfront).input
    cases hstep with
    | read _ hr => cases hinput.symm.trans hr; rfl
    | unread _ hr => cases hinput.symm.trans hr
  have hserving : Serving content text slot t := by
    refine run_induction (P := fun _ u => Serving content text slot u) hback (.inl hloaded)
      fun done a u u' hdone hu hserving hstep => ?_
    have hmem : a ∈ back := hdone.subset (by simp)
    have hpre : front ++ .read :: done <+: front ++ .read :: back := by
      rw [List.prefix_append_right_inj, List.cons_prefix_cons]
      exact ⟨rfl, (List.prefix_append done [a]).trans hdone⟩
    have hrun : run? r s (front ++ .read :: done) = some u := by
      rw [happ, hv]; exact hu
    refine hserving.step (hsettled hpre hrun) hstep (fun later ha => hw later ?_)
      (fun ha => htake (ha ▸ hmem)) (fun ha => hread (ha ▸ hmem))
    exact List.mem_append_right _ (List.mem_cons_of_mem _ (ha ▸ hmem))
  have hnode : t.files.node? slot = some (.text text) := by simpa [Serving, ht] using hserving
  exact FileTree.read_of_place (hsettled (List.prefix_refl _) h).output hnode

/-- No write is lost for a signal that is dropped. When the recompiler has returned after the last
write was signalled, the input has been read since that write, and no signal has been taken after
the last such reading. If what was written compiles and the output can be written, the output is
not the input and the fragments stay as they are, then the output holds what it compiles to. -/
theorem last_write_recompiled (r : Recompiler) (files : FileTree) (senders : Nat)
    {before after : List Action} {content : String}
    (hwritten : run? r (start files senders) (before ++ [.write content]) = some s)
    (hrun : run? r s after = some t) (hlast : ∀ later, .write later ∉ after)
    (hnotified : .notify ∈ after) (hreturned : t.phase = .returned) :
    (∃ front back, after = front ++ .read :: back ∧ .take ∉ back ∧ .read ∉ back) ∧
      ∀ text, compile r.engine (r.loader s.files.read) r.limit r.options content = .ok text →
        (∃ stored, s.files.write r.output text = .ok stored) →
        s.files.place r.input ≠ s.files.place r.output →
        KeepsFragments r s after content →
        t.files.read r.output = .ok text := by
  have hheard := (heard_start files senders).run hwritten
  have hstart : Heard [] s := ⟨hheard.receiving, hheard.returned, fun h => by cases h⟩
  obtain ⟨front, back, rfl, htake, hread⟩ := exists_last_read hstart hrun hnotified hreturned
  refine ⟨⟨front, back, rfl, htake, hread⟩, fun text hcompile hstored hne hkeep => ?_⟩
  obtain ⟨slot, hin, hnode⟩ : ∃ slot, s.files.place r.input = .ok slot ∧
      s.files.node? slot = some (.text content) := by
    obtain ⟨w, -, hstep⟩ := run?_concat.mp hwritten
    cases hstep with
    | write hw =>
      obtain ⟨slot, hslot, hd, rfl⟩ := FileTree.write_eq_ok_iff.mp hw
      exact ⟨slot, (FileTree.sameBut_put hd content).place_eq hslot, FileTree.node?_put_text hd⟩
  obtain ⟨_, hstored⟩ := hstored
  obtain ⟨out, hout, hfree, -⟩ := FileTree.write_eq_ok_iff.mp hstored
  have hresolve := FileTree.resolve_of_place hin (by rw [hnode]; rfl)
  refine stored_of_last_read ⟨FileTree.read_of_place hin hnode, hout, hfree, hcompile⟩ ?_ hlast hkeep
    htake hread hrun hreturned
  rw [hresolve, ← hin, ← hout]
  exact hne

def topRecompiler : Recompiler where
  engine := Template.small
  loader read := .ofFiles read "" Loader.noLookup
  options := {}
  input := "root.sql"
  output := "out.sql"

def topFiles : FileTree := ⟨[(["child.sql"], .text "select 1")]⟩

def topScript : String := "/*[sqlmbegin][script][dev]- a: sqlmfile(\"child.sql\")[sqlmend]*/\x7b\x7b a \x7d\x7d"

/-- One signal more than there is room for, and then what the recompiler does with the others. -/
def crowdedActions : List Action :=
  .replicate 6 .notify ++ .store :: .leave ::
    (List.replicate 5 [.take, .read, .compile, .store]).flatten ++ [.stop]

/-- What was compiled before the last write is stored after it, and is stored over. -/
theorem last_write_recompiled_crowded :
    ∃ s ∈ run? topRecompiler (start topFiles 1)
        ([.write "select 0", .notify, .take, .read, .compile] ++ [.write topScript]),
      ∃ t ∈ run? topRecompiler s crowdedActions, t.files.read topRecompiler.output =
        .ok "/*[sqlmbegin][script][dev]- a: sqlmfile(\"child.sql\")[sqlmend]*/select 1" := by
  obtain ⟨s, hs, hcompile, hfree, hin, hout, hasked, hread, hresolve, t, ht, hreturned⟩ :
      ∃ s ∈ run? topRecompiler (start topFiles 1)
        ([.write "select 0", .notify, .take, .read, .compile] ++ [.write topScript]),
      (compile topRecompiler.engine (topRecompiler.loader s.files.read) topRecompiler.limit
        topRecompiler.options topScript).toOption =
          some "/*[sqlmbegin][script][dev]- a: sqlmfile(\"child.sql\")[sqlmend]*/select 1" ∧
      s.files.isDirectory ["out.sql"] = false ∧
      (s.files.place topRecompiler.input).toOption = some ["root.sql"] ∧
      (s.files.place topRecompiler.output).toOption = some ["out.sql"] ∧
      asked (compileTraced topRecompiler.engine (topRecompiler.loader s.files.read)
        topRecompiler.limit topRecompiler.options topScript) = [.file "child.sql"] ∧
      (s.files.read (Path.join "" "child.sql")).toOption = some "select 1" ∧
      (s.files.resolve (Path.join "" "child.sql")).toOption = some ["child.sql"] ∧
      ∃ t ∈ run? topRecompiler s crowdedActions, t.phase = .returned := by
    decide +kernel
  have hok {ε α : Type} {x : Except ε α} {a : α} (h : x.toOption = some a) : x = .ok a := by
    cases x with
    | error e => cases h
    | ok b => cases h; rfl
  have hw : ∀ later, .write later ∉ crowdedActions := fun later => by simp [crowdedActions]
  have hkeep : KeepsFragments topRecompiler s crowdedActions topScript := by
    refine keepsFragments_ofFiles (fun _ => rfl) (hok hout) hfree hw fun path hpath => ?_
    rw [hasked, List.mem_singleton] at hpath
    cases hpath
    exact ⟨⟨_, hok hread⟩, by rw [hok hresolve]; simp⟩
  refine ⟨s, hs, t, ht, ?_⟩
  refine (last_write_recompiled topRecompiler topFiles 1 hs ht hw (by decide) hreturned).2 _
    (hok hcompile) ⟨_, FileTree.write_eq_ok_iff.mpr ⟨_, hok hout, hfree, rfl⟩⟩ ?_ hkeep
  rw [hok hin, hok hout]
  simp

end Session
end SqlComposer
