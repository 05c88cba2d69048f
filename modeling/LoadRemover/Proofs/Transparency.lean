import LoadRemover.Proofs.Hook
import LoadRemover.Proofs.Preambles
import LoadRemover.Proofs.Writing

/-!
# Hooks are transparent

After a successful attempt to attach, a call of a wrapped function runs through the hook and then goes on as if the
wrapper had called the function without any hook; when the function returns, the wrapper returns to its caller
(`Platform.call_through_hook`). This holds for every address at which the module, the block and the stack may lie,
also where addresses wrap around.

`Head.Lays.exists_hook` reads the hook of a site off the layout of the block.
-/

namespace LoadRemover

open X86

/-! ### What the pieces of a block mean -/

namespace Code

/-- A copy is the site's own code and a jump to what follows it in the site. -/
private theorem exists_addCopy (part : Code) {entry : Code} (hplain : entry.relocations = []) :
    ∃ jump, (part.addCopy entry).bytes = part.bytes ++ (entry.bytes ++ jump) ∧
      Reads jump [.jump (entry.endAddress -
        (part.endAddress + UInt32.ofNat entry.bytes.length + UInt32.ofNat jump.length))] := by
  have hmoved : (entry.moveTo part.endAddress).bytes = entry.bytes := by
    simp only [moveTo, movedBytes, hplain, List.foldl_nil]
  have hbytes : (part.merge entry).bytes = part.bytes ++ entry.bytes := by rw [← hmoved]; rfl
  have hreads := (Instruction.jumpAddress entry.endAddress).reads_encode (part.merge entry)
  have hmerged : (part.merge entry).endAddress = part.endAddress + UInt32.ofNat entry.bytes.length :=
    endAddress_of_bytes rfl hbytes
  have hnext : ((part.merge entry).emit (.jumpAddress entry.endAddress)).endAddress = (part.merge entry).endAddress +
      UInt32.ofNat ((Instruction.jumpAddress entry.endAddress).encode (part.merge entry)).bytes.length :=
    endAddress_of_bytes rfl rfl
  simp only [Instruction.operations, hnext, hmerged] at hreads
  refine ⟨_, ?_, hreads⟩
  rw [← List.append_assoc, ← hbytes]
  rfl

end Code

namespace Head

/-- A wrapper raises the flag, calls the copy with the arguments of the site, and undoes both. -/
theorem exists_addTarget (part : Code) (site : Site) (copy : Nat) :
    ∃ raise lower, (addTarget part (site, copy)).bytes = part.bytes ++ raise ++ lower ∧
      Reads raise (.storeByte part.base Flag.busy :: forward site.stackArgs.toNat ++
        [.call (part.base + UInt32.ofNat copy - (part.endAddress + UInt32.ofNat raise.length))]) ∧
      Reads lower [.storeByte part.base site.endValue, .ret (UInt16.ofNat (4 * site.stackArgs.toNat))] := by
  obtain ⟨raise, hraise, hreads⟩ := part.reads_emitAll
    [.storeByteLabel flagLabel Flag.busy, .callLabel copy site.stackArgs]
  obtain ⟨lower, hlower, hreads'⟩ := (part.emitAll [.storeByteLabel flagLabel Flag.busy,
    .callLabel copy site.stackArgs]).reads_emitAll
    [.storeByteLabel flagLabel site.endValue, .ret (site.stackArgs.toUInt16 * 4)]
  have hflag : part.address flagLabel = part.base := UInt32.add_zero _
  have hpop : site.stackArgs.toUInt16 * 4 = UInt16.ofNat (4 * site.stackArgs.toNat) := by cases site <;> decide
  have hnext : (part.emitAll [.storeByteLabel flagLabel Flag.busy, .callLabel copy site.stackArgs]).endAddress =
      part.endAddress + UInt32.ofNat raise.length :=
    Code.endAddress_of_bytes (part.continues_emitAll _).base hraise
  refine ⟨raise, lower, ?_, ?_, ?_⟩
  · rw [← hraise, ← hlower]
    rfl
  · have hoperations : part.operations [.storeByteLabel flagLabel Flag.busy, .callLabel copy site.stackArgs] =
        .storeByte part.base Flag.busy :: forward site.stackArgs.toNat ++
          [.call (part.base + UInt32.ofNat copy - (part.endAddress + UInt32.ofNat raise.length))] := by
      have hstore : Instruction.operations part (.storeByteLabel flagLabel Flag.busy) =
          [.storeByte part.base Flag.busy] := by
        rw [← hflag]
        rfl
      have hcall : (part.emit (.storeByteLabel flagLabel Flag.busy)).operations [.callLabel copy site.stackArgs] =
          forward site.stackArgs.toNat ++ [.call (part.base + UInt32.ofNat copy -
            (part.endAddress + UInt32.ofNat raise.length))] := by
        rw [← hnext]
        exact List.append_nil _
      rw [Code.operations, hstore, hcall]
      rfl
    rw [← hoperations]
    exact hreads
  · rw [← hpop, ← hflag]
    exact hreads'

end Head

/-! ### From the layout to the hook -/

def Behind (base : UInt32) (n : Nat) (a : UInt32) : Prop := a ≠ base ∧ Within base n a

/-- The hook of a site, given by the site's own code and the address of the flag. -/
structure X86.Hook.Serves {area : UInt32 → Prop} {live : Memory} (hook : Hook area live) (own : Code) (site : Site)
    (flag : UInt32) : Prop where
  entry : hook.entry = own.base
  own : hook.own = own.bytes
  flag : hook.flag = flag
  args : hook.args = site.stackArgs.toNat
  endValue : hook.endValue = site.endValue

private theorem Code.holdsIn_behind {code : Code} {bytes : Bytes} {live : Memory} (part : Code)
    (hbase : code.base = part.base) (hbytes : part.bytes ++ bytes <+: code.bytes)
    (hpart : 0 < part.size) (hsize : code.size ≤ 2 ^ 32) (hlive : live.Holds code.base code.bytes) :
    live.HoldsIn (Behind code.base code.size) part.endAddress bytes := by
  obtain ⟨rest, hrest⟩ := hbytes
  have hlength : part.size + bytes.length ≤ code.size := by
    have := congrArg List.length hrest
    simp only [List.length_append] at this
    simp only [Code.size]
    omega
  have haddress : ∀ i, part.endAddress + UInt32.ofNat i = code.base + UInt32.ofNat (part.size + i) := by
    intro i
    rw [Code.endAddress, Code.address, hbase, UInt32.add_assoc, ← UInt32.ofNat_add]
  have hbehind : ∀ i < bytes.length, Behind code.base code.size (part.endAddress + UInt32.ofNat i) := by
    intro i hi
    rw [haddress]
    refine ⟨fun h => ?_, within_add (by omega) (by omega)⟩
    have hzero : UInt32.ofNat (part.size + i) = 0 := by grind
    have := congrArg UInt32.toNat hzero
    rw [UInt32.toNat_ofNat_of_lt' (by show _ < 2 ^ 32; omega)] at this
    simp at this
    omega
  refine ⟨?_, hbehind⟩
  rw [← hrest] at hlive
  have hpiece := hlive.append.1.append.2
  rw [hbase] at hpiece
  exact hpiece

namespace Head

variable {head : Head} {snapshot : Snapshot} {layout : SiteLayout} {live : Memory}

/-- A block in memory has a hook for each site. -/
private theorem Lays.exists_hook (hlays : head.Lays snapshot layout) (hplain : snapshot.code.relocations = [])
    (hsize : head.code.size ≤ 2 ^ 32) (hlive : live.Holds head.code.base head.code.bytes) :
    ∃ hook : Hook (Behind head.code.base head.code.size) live, hook.Serves snapshot.code snapshot.site head.code.base ∧
      hook.wrapper = head.wrapperAddress layout ∧
      Within (head.wrapperAddress layout) snapshot.site.wrapperSize hook.back := by
  obtain ⟨hsite, ⟨copy, hcopy, hcopyLabel, hcopyIn⟩, wrapper, hwrapper, hwrapperLabel, hwrapperIn⟩ := hlays
  have hcopyBase : head.code.base = copy.base := hcopyIn.base
  have hwrapperBase : head.code.base = wrapper.base := hwrapperIn.base
  have hcopyAddress : head.code.base + UInt32.ofNat layout.copy = copy.endAddress := by
    rw [Code.endAddress, Code.address, hcopyLabel, hcopyBase]
  have hwrapperAddress : head.wrapperAddress layout = wrapper.endAddress := by
    rw [Code.endAddress, Code.address, hwrapperLabel, ← hwrapperBase]
    rfl
  obtain ⟨jump, hcopyBytes, hjump⟩ := copy.exists_addCopy hplain
  obtain ⟨raise, lower, hwrapperBytes, hraise, hlower⟩ := exists_addTarget wrapper layout.site layout.copy
  have hcopyPrefix := hcopyBytes ▸ hcopyIn.bytes
  have hwrapperPrefix := hwrapperBytes ▸ hwrapperIn.bytes
  have hraisePrefix : wrapper.bytes ++ raise <+: head.code.bytes := (List.prefix_append _ _).trans hwrapperPrefix
  -- the part of the wrapper behind its call
  let called : Code := { wrapper with bytes := wrapper.bytes ++ raise }
  have hback : called.endAddress = wrapper.endAddress + UInt32.ofNat raise.length := Code.endAddress_of_bytes rfl rfl
  have hcalled : 0 < called.size := by simp [called, Code.size] at hwrapper ⊢; omega
  have hin : Within (head.wrapperAddress layout) snapshot.site.wrapperSize called.endAddress := by
    have hlength := size_addTarget wrapper (layout.site, layout.copy)
    have hshorter := hwrapperPrefix.length_le
    have hlonger : 2 ≤ lower.length := hlower.length_le
    simp only [Code.size, hwrapperBytes, List.length_append] at hlength hshorter hsize
    rw [← hsite, hwrapperAddress, hback]
    exact within_add (by omega) (by omega)
  refine ⟨{
    entry := snapshot.code.base
    wrapper := wrapper.endAddress
    copy := copy.endAddress
    back := called.endAddress
    flag := head.code.base
    args := snapshot.site.stackArgs.toNat
    endValue := snapshot.site.endValue
    own := snapshot.code.bytes
    call := ⟨raise, Code.holdsIn_behind wrapper hwrapperBase hraisePrefix hwrapper hsize hlive, hback.symm, ?_⟩
    jump := ⟨jump, Code.holdsIn_behind copy hcopyBase hcopyPrefix hcopy hsize hlive, hjump⟩
    ret := ⟨lower, Code.holdsIn_behind called hwrapperBase hwrapperPrefix hcalled hsize hlive, ?_⟩
  }, ⟨rfl, rfl, rfl, rfl, rfl⟩, hwrapperAddress.symm, hin⟩
  · rw [hback, ← hcopyAddress, hwrapperBase, ← hsite]
    exact hraise
  · rw [hwrapperBase, ← hsite]
    exact hlower

end Head

/-! ### The memory of a patched process -/

theorem pairwise_patches {build : Build} (hbuild : build ∈ Build.known) (moduleBase base : UInt32)
    (hblock : ∀ s ∈ build.snapshots moduleBase, Apart base 162 s.code.base 6) :
    ((Head.placed (build.snapshots moduleBase) base).patches
      ((Head.build (build.snapshots moduleBase)).sites.zip (build.snapshots moduleBase))).Pairwise
      fun p q => Apart p.1 p.2.length q.1 q.2.length := by
  have hsnapshots : (build.snapshots moduleBase).Pairwise fun s t => Apart s.code.base 6 t.code.base 6 := by
    have hsites : Site.all.Pairwise (· ≠ ·) := by decide
    exact List.pairwise_map.2 (hsites.imp fun hne => Build.apart_of_ne hbuild moduleBase hne)
  obtain ⟨hmap, -⟩ := sites_zip build moduleBase base
  rw [← hmap, List.pairwise_map] at hsnapshots
  refine List.pairwise_cons.2 ⟨?_, List.pairwise_map.2 (hsnapshots.imp fun h => ?_)⟩
  · intro piece hpiece
    obtain ⟨pair, hpair, rfl⟩ := List.mem_map.1 hpiece
    have hmem : pair.2 ∈ build.snapshots moduleBase := by
      rw [← hmap]
      exact List.mem_map_of_mem hpair
    have hsize : (Head.placed (build.snapshots moduleBase) base).code.bytes.length = 162 :=
      size_placed build moduleBase base
    rw [hsize, Head.length_redirection]
    exact (hblock _ hmem).mono (Nat.le_refl _) (by omega)
  · rw [Head.length_redirection, Head.length_redirection]
    exact h.mono (by omega) (by omega)

/-- Patched memory has a hook for each site, and the site's redirection leads there. -/
theorem exists_site_hook {build : Build} (hbuild : build ∈ Build.known) {moduleBase base : UInt32}
    {before live : Memory} (hlive : live = before.storeAll ((Head.placed (build.snapshots moduleBase) base).patches
      ((Head.build (build.snapshots moduleBase)).sites.zip (build.snapshots moduleBase))))
    (hblock : ∀ s ∈ build.snapshots moduleBase, Apart base 162 s.code.base 6) (site : Site) :
    ∃ layout ∈ (Head.build (build.snapshots moduleBase)).sites, layout.site = site ∧
      ∃ hook : Hook (Behind base 162) live, hook.Serves (preamble site build moduleBase) site base ∧
        live.Holds hook.entry hook.redirection ∧
        Within (base + UInt32.ofNat layout.wrapper) site.wrapperSize hook.back := by
  obtain ⟨hmap, hlays⟩ := sites_zip build moduleBase base
  have hsize : (Head.placed (build.snapshots moduleBase) base).code.size ≤ 2 ^ 32 := by
    rw [size_placed]
    omega
  have hsite := build.mem_snapshots moduleBase site
  rw [← hmap] at hsite
  obtain ⟨⟨layout, snapshot⟩, hpair, rfl⟩ := List.mem_map.1 hsite
  have hpatches := Head.holds_patches _ hsize (pairwise_patches hbuild moduleBase base hblock) before
  rw [← hlive] at hpatches
  have hhook := (hlays _ hpair).exists_hook (preamble_relocations site build moduleBase) hsize hpatches.1
  rw [size_placed] at hhook
  obtain ⟨hook, hserves, hwrapper, hback⟩ := hhook
  refine ⟨layout, (List.of_mem_zip hpair).1, (hlays _ hpair).site, hook, hserves, ?_, hback⟩
  have hredirect := hpatches.2 _ hpair
  rw [bytes_redirect] at hredirect
  show live.Holds hook.entry (0xE9 :: Bytes.littleEndian32 (hook.wrapper - (hook.entry + 5)))
  rw [hserves.entry, hwrapper]
  exact hredirect

/-! ### Calls -/

namespace Session

variable {π : Type}

/-- The addresses that a session has written to: those of its block and of the sites. -/
def Owns (session : Session π) (a : UInt32) : Prop :=
  Within session.head (Head.build session.snapshots).code.size a ∨
    ∃ s ∈ session.snapshots, Within s.code.base s.code.size a

/-- A call of a wrapped function with the first instructions `own` goes on as if the wrapper had called the function
and nothing were written over it: `final` is where these instructions lead from that call, and the state that the
call reaches is the same but for the bytes at the entry point. -/
def Enters (session : Session π) (own : Code) (args : Nat) (back : UInt32) (machine : Machine) : Prop :=
  ∃ called operations final, machine.CalledFrom session.flag back args called ∧
    (sweep? own.bytes).map (·.map (·.2)) = some operations ∧
    Machine.run? operations.length (called.store own.base own.bytes) = some final ∧
    final.instruction = own.endAddress ∧
    machine.Reaches (final.store own.base (machine.memory.slice own.base own.size))

/-- A function that returns to the wrapper returns to its caller: the flag gets the site's end value, and the return
address and the arguments are gone from the stack. -/
def Leaves (session : Session π) (site : Site) (returned : Machine) : Prop :=
  ∃ done, returned.Reaches done ∧ done.instruction = returned.stackWord 0 ∧
    done.top = returned.top + UInt32.ofNat (4 * (site.stackArgs.toNat + 1)) ∧
    (∀ r, r ≠ .esp → done.register r = returned.register r) ∧
    done.memory = returned.memory.store session.flag [site.endValue]

end Session

/-- The stack of a call: the arguments with the return address, and the words below them that the wrapper and the
first instructions of the function use. -/
def StackArea (top : UInt32) (args : Nat) (a : UInt32) : Prop := Below top 52 a ∨ Within top (4 * (args + 1)) a

section Hooked

variable {π : Type} {session : Session π} {build : Build} {moduleBase : UInt32} {site : Site} {area : UInt32 → Prop}
  {live : Memory} {machine : Machine}

theorem stackArgs_le_one (site : Site) : site.stackArgs.toNat ≤ 1 := by cases site <;> decide

private theorem Session.enters {hook : Hook area live}
    (hhook : hook.Serves (preamble site build moduleBase) site session.flag)
    (hentry : machine.instruction = (preamble site build moduleBase).base)
    (hredirect : live.Holds hook.entry hook.redirection)
    (hcode : ∀ a, area a ∨ Within (preamble site build moduleBase).base 6 a →
      a ≠ session.flag ∧ machine.memory a = live a ∧ ¬ Below machine.top 52 a)
    (hflag : ¬ StackArea machine.top site.stackArgs.toNat session.flag) :
    session.Enters (preamble site build moduleBase) site.stackArgs.toNat hook.back machine := by
  obtain ⟨operations, hreads, hworks, hblind, hdepth⟩ := reads_preamble site build moduleBase
  have hlength : (preamble site build moduleBase).bytes.length = 6 := size_preamble site build moduleBase
  have hargs := stackArgs_le_one site
  have hjump : machine.memory.Holds hook.entry hook.redirection := by
    refine hredirect.congr fun i hi => (hcode _ (.inr ?_)).2.1
    have hi : i < 5 := hi
    rw [hhook.entry]
    exact within_add (by omega) (by omega)
  have harea : ∀ a, area a → Untouched hook.flag machine.top 52 a := by
    intro a ha
    obtain ⟨hne, -, hbelow⟩ := hcode a (.inl ha)
    exact ⟨hhook.flag ▸ hne, hbelow⟩
  have hplace : ∀ a, Within hook.entry hook.own.length a → Untouched hook.flag machine.top 52 a := by
    intro a ha
    rw [hhook.entry, hhook.own, hlength] at ha
    obtain ⟨hne, -, hbelow⟩ := hcode a (.inr ha)
    exact ⟨hhook.flag ▸ hne, hbelow⟩
  have hbelow : ¬ Below machine.top 52 hook.flag := fun hin => hflag (.inl (by rwa [hhook.flag] at hin))
  have habove : ¬ Within machine.top (4 * (hook.args + 1)) hook.flag :=
    fun hin => hflag (.inr (by rwa [hhook.flag, hhook.args] at hin))
  rw [← hhook.own] at hreads
  obtain ⟨called, final, hcalled, hrun, hfinal, hreaches⟩ := hook.enter_eq_own (fun a ha => (hcode a (.inl ha)).2.1)
    (hentry.trans hhook.entry.symm) hjump hreads hworks hblind (by rw [hhook.args]; omega) (by rw [hhook.args]; omega)
    (by rw [hhook.own]; omega) harea hplace hbelow habove
  rw [hhook.entry, hhook.own] at hrun hfinal hreaches
  rw [hhook.flag, hhook.args] at hcalled
  rw [hhook.own] at hreads
  exact ⟨called, operations, final, hcalled, hreads.sweep?, hrun, hfinal, hreaches⟩

private theorem Session.leaves {own : Code} {hook : Hook area live} (hhook : hook.Serves own site session.flag)
    (hback : machine.instruction = hook.back) (hcode : ∀ a, area a → a ≠ session.flag ∧ machine.memory a = live a)
    (hflag : ¬ Within machine.top 4 session.flag) : session.Leaves site machine := by
  have hargs := stackArgs_le_one site
  obtain ⟨done, hrun, hdone⟩ := hook.run?_leave (fun a ha => (hcode a ha).2) hback (by rw [hhook.args]; omega)
    (fun a ha => hhook.flag ▸ (hcode a ha).1) (fun hin => hflag (hhook.flag ▸ hin))
  rw [hhook.flag, hhook.args, hhook.endValue] at hdone
  exact ⟨done, ⟨2, hrun⟩, hdone⟩

end Hooked

/-- After a successful attempt to attach, a call of a wrapped function goes through the hook and on as if the wrapper
had called the function without a hook, and when the function returns, having removed its arguments, the wrapper
returns to the caller. The stack must not reach into the block or the sites, and nobody else may have changed the
block's code and the redirections since. -/
theorem Platform.call_through_hook {σ π : Type} {platform : Platform σ π} {process : π}
    (view : MemoryView platform process) {build : Build} (hbuild : build ∈ Build.known) (moduleBase : UInt32)
    {s s' : Traced σ} {session : Session π} (hvalid : view.valid s.world)
    (hattach : (platform.attach ⟨process, build, moduleBase, build.snapshots moduleBase⟩).outcome s = (.ok session, s'))
    (hblock : ∀ t ∈ session.snapshots,
      Apart session.head (Head.build session.snapshots).code.size t.code.base t.code.size)
    (site : Site) {machine : Machine} (hentry : machine.instruction = (preamble site build moduleBase).base)
    (hintact : ∀ a, session.Owns a → a ≠ session.flag → machine.memory a = view.memory s'.world a)
    (hstack : ∀ a, StackArea machine.top site.stackArgs.toNat a → ¬ session.Owns a) :
    ∃ layout ∈ (Head.build session.snapshots).sites, layout.site = site ∧
      ∃ back, Within (session.head + UInt32.ofNat layout.wrapper) site.wrapperSize back ∧
        session.Enters (preamble site build moduleBase) site.stackArgs.toNat back machine ∧
        ∀ returned : Machine, returned.instruction = back → returned.top = machine.top →
          (∀ a, Within session.head (Head.build session.snapshots).code.size a → a ≠ session.flag →
            returned.memory a = view.memory s'.world a) →
          session.Leaves site returned := by
  have hstart := MemoryView.ensures_attach ⟨process, build, moduleBase, build.snapshots moduleBase⟩ view s hvalid
  rw [hattach] at hstart
  obtain ⟨base, hsession, before, hlive⟩ := hstart
  have hsize := size_build build moduleBase
  obtain ⟨hhead, hflag, hsnapshots⟩ : session.head = base ∧ session.flag = base ∧
      session.snapshots = build.snapshots moduleBase := by
    rw [hsession]
    exact ⟨rfl, UInt32.add_zero base, rfl⟩
  rw [hhead, hsnapshots, hsize] at hblock ⊢
  have hsite : ⟨site, preamble site build moduleBase⟩ ∈ build.snapshots moduleBase :=
    List.mem_map_of_mem site.mem_all
  have happart : ∀ t ∈ build.snapshots moduleBase, Apart base 162 t.code.base 6 := by
    intro t ht
    obtain ⟨site', -, rfl⟩ := List.mem_map.1 ht
    have := hblock _ ht
    rwa [size_preamble] at this
  have howns : ∀ a, Within base 162 a ∨ Within (preamble site build moduleBase).base 6 a → session.Owns a := by
    intro a ha
    rw [Session.Owns, hhead, hsnapshots, hsize]
    refine ha.imp_right fun hin => ⟨_, hsite, ?_⟩
    rwa [size_preamble]
  have hbase : Within base 162 base := by simp [Within]
  -- the flag is at the base of the block, which the stack does not reach
  have hclear : ¬ StackArea machine.top site.stackArgs.toNat session.flag :=
    fun hin => hstack _ hin (howns _ (.inl (by rwa [hflag])))
  obtain ⟨layout, hlayout, hlayoutSite, hook, hhook, hredirect, hback⟩ := exists_site_hook hbuild hlive happart site
  have hserves : hook.Serves (preamble site build moduleBase) site session.flag := by
    rw [hflag]
    exact hhook
  refine ⟨layout, hlayout, hlayoutSite, hook.back, hback, session.enters hserves hentry hredirect ?_ hclear, ?_⟩
  · intro a ha
    have hin : session.Owns a := howns a (ha.imp_left fun h => h.2)
    have hne : a ≠ session.flag := by
      rcases ha with ha | ha
      · exact hflag ▸ ha.1
      · rintro rfl
        exact happart _ hsite _ (hflag ▸ hbase) ha
    exact ⟨hne, hintact a hin hne, fun hbelow => hstack a (.inl hbelow) hin⟩
  · intro returned hreturned htop hcode
    refine session.leaves hserves hreturned (fun a ha => ?_) fun hin => ?_
    · exact ⟨hflag ▸ ha.1, hcode a ha.2 (hflag ▸ ha.1)⟩
    · rw [htop] at hin
      exact hclear (.inr (Nat.lt_of_lt_of_le hin (by omega)))

/-! ### A process that is all memory -/

/-- A process that can be written everywhere and has its blocks at one address. -/
def flatPlatform : Platform Memory Unit where
  processes := pure []
  openProcess _ := pure ()
  close _ := pure ()
  pid _ := 0
  hasExited _ := pure false
  is64Bit _ := pure false
  moduleBase _ := pure 0x400000
  read _ address n := .onWorld fun memory => (.ok (memory.slice address n), memory)
  write _ address bytes := .onWorld fun memory => (.ok (), memory.store address bytes)
  allocate _ _ := pure 0x1000000
  free _ _ := pure ()

def flatView : MemoryView flatPlatform () where
  memory memory := memory
  valid _ := True
  allocate _ := Attempt.Ensures.pure fun _ _ => True.intro
  write before address bytes := by
    rintro s ⟨-, rfl⟩
    exact ⟨True.intro, rfl⟩

/-- Attaching to this process, with the retail build at `0x400000`. -/
def flatOutcome : Except Failure (Session Unit) × Traced Memory :=
  (flatPlatform.attach ⟨(), Build.retail, 0x400000, Build.retail.snapshots 0x400000⟩).outcome ⟨fun _ => 0, []⟩

/-- The game's main function, called in the patched process with the stack at `0x90000`. -/
theorem call_through_hook_game : ∃ session s', flatOutcome = (.ok session, s') ∧
    ∃ back, session.Enters (preamble .game Build.retail 0x400000) 1 back
        ⟨fun r => if r = .esp then 0x90000 else 0, 0x403B80, s'.world⟩ ∧
      ∀ returned : Machine, returned.instruction = back → returned.top = 0x90000 → returned.memory = s'.world →
        session.Leaves .game returned := by
  have hok : flatOutcome.1.toOption.map (fun session => (session.head, session.flag)) =
      some (0x1000000, 0x1000000) := by
    decide +kernel
  cases hresult : flatOutcome.1 with
  | error failure =>
    rw [hresult] at hok
    exact nomatch hok
  | ok session =>
    rw [hresult] at hok
    obtain ⟨hhead, hflag⟩ := Prod.mk.inj (Option.some.inj hok)
    have hattach : flatOutcome = (.ok session, flatOutcome.2) := Prod.ext hresult rfl
    have hstart := MemoryView.ensures_attach ⟨(), Build.retail, 0x400000, Build.retail.snapshots 0x400000⟩ flatView
      ⟨fun _ => 0, []⟩ True.intro
    have houtcome : (flatPlatform.attach ⟨(), Build.retail, 0x400000, Build.retail.snapshots 0x400000⟩).outcome
        ⟨fun _ => 0, []⟩ = (.ok session, flatOutcome.2) := hattach
    rw [houtcome] at hstart
    obtain ⟨base, hsession, -⟩ := hstart
    have hsnapshots : session.snapshots = Build.retail.snapshots 0x400000 := by
      rw [hsession]
      rfl
    have hsize := size_build Build.retail 0x400000
    have hsites : ∀ t ∈ Build.retail.snapshots 0x400000, 0x403860 ≤ t.code.base.toNat ∧ t.code.base.toNat ≤ 0x403B80 ∧
        t.code.size = 6 := by
      decide
    have hapart : ∀ t ∈ session.snapshots,
        Apart session.head (Head.build session.snapshots).code.size t.code.base t.code.size := by
      rw [hsnapshots, hhead, hsize]
      intro t ht
      obtain ⟨hlow, hhigh, hlength⟩ := hsites t ht
      rw [hlength]
      exact (apart_of_le (by simp; omega) (by decide)).symm
    have hstack : ∀ a, StackArea 0x90000 Site.game.stackArgs.toNat a → ¬ session.Owns a := by
      intro a ha howns
      have hin : Within (0x90000 - 52) 60 a := by
        rcases ha with hbelow | habove
        · exact Nat.lt_of_lt_of_le hbelow (by decide)
        · obtain ⟨i, hi, hi', rfl⟩ := habove.exists
          have hi : i < 8 := hi
          have haddress : (0x90000 : UInt32) + UInt32.ofNat i = 0x90000 - 52 + UInt32.ofNat (52 + i) := by
            rw [UInt32.ofNat_add]
            grind
          rw [haddress]
          exact within_add (by omega) (by omega)
      rw [Session.Owns, hsnapshots, hhead, hsize] at howns
      rcases howns with hblock | ⟨t, ht, hsite⟩
      · exact apart_of_le (by decide) (by decide) a hin hblock
      · obtain ⟨hlow, hhigh, hlength⟩ := hsites t ht
        rw [hlength] at hsite
        exact apart_of_le (by simp; omega) (by omega) a hin hsite
    have hentry : (⟨fun r => if r = .esp then 0x90000 else 0, 0x403B80, flatOutcome.2.world⟩ : Machine).instruction =
        (preamble .game Build.retail 0x400000).base := rfl
    obtain ⟨layout, -, -, back, -, henters, hleaves⟩ := Platform.call_through_hook flatView (by simp [Build.known])
      0x400000 True.intro houtcome hapart .game hentry (fun _ _ _ => rfl) hstack
    exact ⟨session, _, hattach, back, henters, fun returned hreturned htop hmemory =>
      hleaves returned hreturned htop fun a _ _ => congrFun hmemory a⟩

end LoadRemover
