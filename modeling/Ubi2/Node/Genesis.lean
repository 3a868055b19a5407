import Ubi2.Rpc.Anchor
import Ubi2.Runtime.Jury

namespace Ubi2.Node

open Ubi2.Runtime Ubi2.Lib Ubi2.Lib.Encode Ubi2.Rpc

def DEVNET_CHAIN_ID : U64 := 0x5542#64

def DEV_ADDR : Address := 0xf39Fd6e51aad88F6F4ce6aB8827279cffFb92266#160

def DEVNET_JURORS : List Address :=
  [ 0x70997970C51812dc3A010C7d01b50e0d17dc79C8#160,
    0x3C44CdDdB6a900fa2b585dd299e03d12FA4293BC#160,
    0x90F79bf6EB2c4f870365E785982E1f101E93b906#160 ]

-- So many copies of one byte.
def repeated (b : Byte) (n : Nat) : Hash := BitVec.ofNat 256 (Decode.ofBytes (List.replicate n b))

def DEVNET_SELF_IDENTITY_ROOT : Hash := repeated 0x5E#8 32
def DEVNET_OFAC_ROOTS : List Hash := [repeated 0x0F#8 32, repeated 0x1F#8 32, repeated 0x2F#8 32]

-- The seed of the scope, in its low bytes.
def UBI2_SELF_SCOPE : Hash := 0x756269322d706f68#256
def DEVNET_SELF_SCOPE : Hash := UBI2_SELF_SCOPE

-- A verified account whose emission starts at genesis.
def verifiedAccount (addr : Address) (genesisTime : U64) : Account where
  address := addr
  verified := true
  verifiedAt := genesisTime
  lastSettledAt := genesisTime
  settledBalance := 0#128
  nonce := 0#64

-- A seed of the live chain is one of its state.
def seed (f : MemState → MemState) (chain : Chain) : Chain :=
  { chain with inner := { chain.inner with state := f chain.inner.state } }

def seedCanonicalDevnetGenesis (chain : Chain) (genesisTime : U64) : Chain :=
  let chain := seed (·.put (verifiedAccount DEV_ADDR genesisTime)) chain
  let chain := seed (·.seedVerifiedHuman DEV_ADDR genesisTime) chain
  let chain := DEVNET_JURORS.foldl (fun chain juror => seed (·.registerJuror juror 0#128) chain) chain
  let chain := seed (fun s => { s with zk := { s.zk with cscaGovernance := some DEV_ADDR } }) chain
  let chain := seed (·.seedSelfIdentityRoot DEVNET_SELF_IDENTITY_ROOT) chain
  let chain := DEVNET_OFAC_ROOTS.zipIdx.foldl
    (fun chain e => seed (·.seedSelfOfacRoot (BitVec.ofNat 8 e.2) e.1) chain) chain
  seed (·.seedSelfScope DEVNET_SELF_SCOPE) chain

-- The same seeds, for a state of their own.
def buildGenesisState (devAddr : Address) (genesisTime : U64) : MemState :=
  let s : MemState := {}
  let s := s.put (verifiedAccount devAddr genesisTime)
  let s := s.seedVerifiedHuman devAddr genesisTime
  let s := DEVNET_JURORS.foldl (fun s juror => s.registerJuror juror 0#128) s
  let s := { s with zk := { s.zk with cscaGovernance := some devAddr } }
  let s := s.seedSelfIdentityRoot DEVNET_SELF_IDENTITY_ROOT
  let s := DEVNET_OFAC_ROOTS.zipIdx.foldl
    (fun s e => s.seedSelfOfacRoot (BitVec.ofNat 8 e.2) e.1) s
  s.seedSelfScope DEVNET_SELF_SCOPE

-- `char::is_whitespace`: the characters with the property `White_Space`.
def isWhitespace (c : Char) : Bool :=
  (9 ≤ c.toNat && c.toNat ≤ 13) || c.toNat = 0x20 || c.toNat = 0x85 || c.toNat = 0xA0 ||
  c.toNat = 0x1680 || (0x2000 ≤ c.toNat && c.toNat ≤ 0x200A) || c.toNat = 0x2028 ||
  c.toNat = 0x2029 || c.toNat = 0x202F || c.toNat = 0x205F || c.toNat = 0x3000

def trim (s : List Char) : List Char :=
  ((s.dropWhile isWhitespace).reverse.dropWhile isWhitespace).reverse

-- The variables of the environment that genesis is read from.
structure GenesisEnv where
  genesisTime : Option String
  genesisValidators : Option String

-- A variable that is blank counts as one that is not set.
def env (var : Option String) : Option String := var.filter fun s => trim s.toList ≠ []

-- `str::parse` to `u64`.
def parseU64 (s : String) : Option U64 :=
  (parseDecimal s).bind fun v => if v.toNat < 2 ^ 64 then some (v.setWidth 64) else none

-- The genesis time of `netcfg::resolve`: the clock, unless one is configured.
def GenesisEnv.resolveTime (e : GenesisEnv) (defaultGenesisTime : U64) : U64 :=
  ((env e.genesisTime).bind parseU64).getD defaultGenesisTime

-- `u8::from_str_radix` of a slice of two bytes: a plus sign may take the place of the first digit.
def fromStrRadix16 : Bytes → Option Byte
  | [43#8, lo] => toDigit lo
  | [hi, lo] => do
    let hi ← toDigit hi
    let lo ← toDigit lo
    pure (hi <<< 4 ||| lo)
  | _ => none

-- A slice may start and end where no character is cut.
def isCharBoundary (bytes : Bytes) (i : Nat) : Bool :=
  match bytes[i]? with
  | some b => b &&& 0xC0#8 ≠ 0x80#8
  | none => i = bytes.length

-- The loop over the pairs of digits ends at the first that is none. The outer `none` is a panic,
-- which is that of a cut character.
def readPairs (hex : Bytes) : List Nat → Option (Option Bytes)
  | [] => some (some [])
  | i :: is =>
    if isCharBoundary hex (i * 2) ∧ isCharBoundary hex (i * 2 + 2) then
      match fromStrRadix16 ((hex.drop (i * 2)).take 2) with
      | none => some none
      | some b => (readPairs hex is).map fun rest => rest.map (b :: ·)
    else none

-- The address of a token, where it is well formed.
def readValidator (token : List Char) : Option (Option Address) :=
  let hex :=
    match strBytes (String.ofList token) with
    | 48#8 :: 120#8 :: hex => hex
    | hex => hex
  if hex.length ≠ 40 then some none
  else (readPairs hex (List.range 20)).map fun bytes =>
    bytes.map fun b => BitVec.ofNat 160 (Decode.ofBytes b)

-- The validators the environment lists. A token that is not well formed is skipped.
def GenesisEnv.validators (e : GenesisEnv) : Option (List Address) :=
  match env e.genesisValidators with
  | none => some []
  | some raw =>
    let tokens := ((raw.toList.splitOn ',').map trim).filter (· ≠ [])
    (tokens.mapM readValidator).map fun found => found.filterMap id

def seedGenesisValidator (genesisTime : U64) (chain : Chain) (addr : Address) : Chain :=
  let chain := seed (·.put (verifiedAccount addr genesisTime)) chain
  let chain := seed (·.seedVerifiedHuman addr genesisTime) chain
  seed (·.registerJuror addr 0#128) chain

def seedGenesisValidators (e : GenesisEnv) (chain : Chain) (genesisTime : U64) : Option Chain :=
  e.validators.map fun l => l.foldl (seedGenesisValidator genesisTime) chain

-- The chain a node boots with, from the snapshot that was loaded or from genesis. `none` is a
-- panic.
def boot (host : NodeHost) (parseU256 : String → Option U256) (proposerKey : Option ProposerKey)
    (e : GenesisEnv) (now : U64) (loaded : Option ChainSnapshot) : Option Chain :=
  let genesisTime := e.resolveTime now
  match loaded.filter fun snap => snap.chainId = DEVNET_CHAIN_ID with
  | some snap =>
    (Chain.fromSnapshot host parseU256 proposerKey snap).map fun chain =>
      chain.sealGenesisFromState (buildGenesisState DEV_ADDR genesisTime)
  | none =>
    let chain := Chain.new host proposerKey genesisTime
    let chain := seedCanonicalDevnetGenesis chain genesisTime
    (seedGenesisValidators e chain genesisTime).map Chain.sealGenesis

-- The root that the light client is shipped with.
example : stateRoot (buildGenesisState DEV_ADDR 1700000000#64) =
    0xe50660aa38e3be89e6186e1d8473e744a22a2111957a22cc192a03b93fa28825#256 := by
  decide +kernel

-- A validator of the state: an active juror that is a verified human.
structure Qualified (s : MemState) (a : Address) : Prop where
  juror : a ∈ s.activeJurors
  human : (s.getHuman a).map Human.status = some .Verified

section
variable {host : NodeHost} {parseU256 : String → Option U256} {proposerKey : Option ProposerKey}
variable {validatorOverride : Option Address} {e : GenesisEnv}
variable {chain fresh ran restored again : Chain} {a b : Address}

theorem Qualified.mem {s : MemState} (h : Qualified s a) : a ∈ s.computeValidatorMembership := by
  apply mem_sortDedup.mpr
  exact List.mem_filter.mpr ⟨h.juror, decide_eq_true h.human⟩

theorem mem_activeJurors_registerJuror {s : MemState} {stake : U128} :
    a ∈ (s.registerJuror b stake).activeJurors ↔ a = b ∨ a ∈ s.activeJurors := by
  simp only [MemState.activeJurors, HumanRegistry.activeJurors, List.mem_map, List.mem_filter]
  constructor
  · rintro ⟨j, ⟨hj, hactive⟩, rfl⟩
    rcases Table.mem_put.mp hj with rfl | ⟨hj, -⟩
    · exact Or.inl rfl
    · exact Or.inr ⟨j, ⟨hj, hactive⟩, rfl⟩
  · intro h
    by_cases hab : a = b
    · exact ⟨_, ⟨Table.mem_put.mpr (Or.inl rfl), rfl⟩, hab.symm⟩
    · rcases h with h | ⟨j, ⟨hj, hactive⟩, rfl⟩
      · exact absurd h hab
      · exact ⟨j, ⟨Table.mem_put.mpr (Or.inr ⟨hj, hab⟩), hactive⟩, rfl⟩

theorem getHuman_seedGenesisValidator (genesisTime : U64) (chain : Chain) (a b : Address) :
    (((seedGenesisValidator genesisTime chain a).inner.state.getHuman b).map Human.status) =
      if a = b then some .Verified else (chain.inner.state.getHuman b).map Human.status := by
  have hput : (seedGenesisValidator genesisTime chain a).inner.state.getHuman b =
      if a = b then _ else chain.inner.state.getHuman b := Table.get_put _ _ _
  rw [hput]
  split <;> rfl

theorem qualified_seedGenesisValidator (genesisTime : U64)
    (h : a = b ∨ Qualified chain.inner.state b) :
    Qualified (seedGenesisValidator genesisTime chain a).inner.state b := by
  refine ⟨mem_activeJurors_registerJuror.mpr ?_, ?_⟩
  · rcases h with rfl | h
    · exact Or.inl rfl
    · exact Or.inr h.juror
  · rw [getHuman_seedGenesisValidator]
    rcases h with rfl | h
    · exact if_pos rfl
    · rw [h.human]
      split <;> rfl

-- Every validator that is seeded qualifies once all are.
theorem qualified_foldl (genesisTime : U64) (l : List Address)
    (h : a ∈ l ∨ Qualified chain.inner.state a) :
    Qualified (l.foldl (seedGenesisValidator genesisTime) chain).inner.state a := by
  induction l generalizing chain with
  | nil =>
    rcases h with h | h
    · cases h
    · exact h
  | cons b l ih =>
    apply ih
    rcases h with h | h
    · rcases List.mem_cons.mp h with rfl | h
      · exact Or.inr (qualified_seedGenesisValidator genesisTime (Or.inl rfl))
      · exact Or.inl h
    · exact Or.inr (qualified_seedGenesisValidator genesisTime (Or.inr h))

-- Before the validators are seeded, the state is the one that is built again after a restart.
theorem seedCanonicalDevnetGenesis_state (genesisTime : U64) :
    (seedCanonicalDevnetGenesis (Chain.new host proposerKey genesisTime) genesisTime).inner.state =
      buildGenesisState DEV_ADDR genesisTime := rfl

theorem buildGenesisState_accounts (genesisTime : U64) :
    (buildGenesisState DEV_ADDR genesisTime).ledger.accounts.rows =
      [verifiedAccount DEV_ADDR genesisTime] := by
  rfl

-- None of the canonical jurors is a human, and the one human is no juror.
theorem buildGenesisState_refresh (genesisTime : U64) :
    (buildGenesisState DEV_ADDR genesisTime).refreshEpochValidators =
      buildGenesisState DEV_ADDR genesisTime := by
  have hnone : (buildGenesisState DEV_ADDR genesisTime).computeValidatorMembership = [] := by rfl
  rw [MemState.refreshEpochValidators, hnone]
  rfl

-- The height-0 state of a fresh boot, over the validators that were listed.
def freshState (host : NodeHost) (proposerKey : Option ProposerKey) (genesisTime : U64)
    (l : List Address) : MemState :=
  (l.foldl (seedGenesisValidator genesisTime)
    (seedCanonicalDevnetGenesis (Chain.new host proposerKey genesisTime)
      genesisTime)).inner.state.refreshEpochValidators

theorem foldl_seedGenesisValidator (genesisTime : U64) (l : List Address) (chain : Chain) :
    (l.foldl (seedGenesisValidator genesisTime) chain).genesisAnchor = chain.genesisAnchor ∧
    (l.foldl (seedGenesisValidator genesisTime) chain).head = chain.head ∧
      (l.foldl (seedGenesisValidator genesisTime) chain).inner.state.epochValidators =
        chain.inner.state.epochValidators := by
  induction l generalizing chain with
  | nil => exact ⟨rfl, rfl, rfl⟩
  | cons a l ih => exact ih (seedGenesisValidator genesisTime chain a)

theorem boot_fresh {now : U64} (h : boot host parseU256 proposerKey e now none = some chain) :
    ∃ l, e.validators = some l ∧
      chain.genesisAnchor = some (freshState host proposerKey (e.resolveTime now) l) := by
  obtain ⟨seeded, hseeded, rfl⟩ := Option.map_eq_some_iff.mp h
  obtain ⟨l, hl, rfl⟩ := Option.map_eq_some_iff.mp hseeded
  obtain ⟨hanchor, hhead, hvalidators⟩ := foldl_seedGenesisValidator (e.resolveTime now) l
    (seedCanonicalDevnetGenesis (Chain.new host proposerKey (e.resolveTime now))
      (e.resolveTime now))
  refine ⟨l, hl, ?_⟩
  have hseed : seedEpochValidators
      (l.foldl (seedGenesisValidator (e.resolveTime now))
        (seedCanonicalDevnetGenesis (Chain.new host proposerKey (e.resolveTime now))
          (e.resolveTime now))).head.number
      (l.foldl (seedGenesisValidator (e.resolveTime now))
        (seedCanonicalDevnetGenesis (Chain.new host proposerKey (e.resolveTime now))
          (e.resolveTime now))).inner.state =
      freshState host proposerKey (e.resolveTime now) l := by
    rw [seedEpochValidators, hhead, hvalidators]
    exact if_pos ⟨rfl, rfl⟩
  rw [← hseed, Chain.sealGenesis]
  exact congrArg (fun anchor => Option.or anchor _) hanchor

theorem boot_restored {now : U64} {snap : ChainSnapshot} (hsnap : snap.chainId = DEVNET_CHAIN_ID)
    (h : boot host parseU256 proposerKey e now (some snap) = some chain) :
    chain.genesisAnchor = some (buildGenesisState DEV_ADDR (e.resolveTime now)) := by
  rw [boot, Option.filter_some, if_pos (by simpa using hsnap)] at h
  obtain ⟨loaded, hloaded, rfl⟩ := Option.map_eq_some_iff.mp h
  have hnone : loaded.genesisAnchor = none := by
    rw [Chain.fromSnapshot] at hloaded
    split at hloaded
    · split at hloaded
      · cases hloaded
        rfl
      · cases hloaded
    · cases hloaded
  rw [Chain.sealGenesisFromState, hnone]
  rfl

-- The anchor of a fresh boot is the one that is built again just where no validator was seeded
-- and the genesis time is the same.
theorem buildGenesisAnchor_freshState {t u : U64} {l : List Address} :
    buildGenesisAnchor (buildGenesisState DEV_ADDR u) =
        buildGenesisAnchor (freshState host proposerKey t l) ↔ l = [] ∧ u = t := by
  constructor
  · intro h
    obtain ⟨haccounts, hvalidators⟩ := buildGenesisAnchor_eq h
    have hnone : (freshState host proposerKey t l).epochValidators = [] :=
      List.eq_nil_of_length_eq_zero hvalidators.symm
    obtain rfl : l = [] := by
      apply List.eq_nil_iff_forall_not_mem.mpr
      intro a ha
      have hmem : a ∈ (freshState host proposerKey t l).epochValidators :=
        mem_sortDedup.mpr (qualified_foldl t l (Or.inl ha)).mem
      rw [hnone] at hmem
      cases hmem
    refine ⟨rfl, ?_⟩
    rw [freshState, List.foldl_nil, seedCanonicalDevnetGenesis_state, buildGenesisState_refresh,
      buildGenesisState_accounts, buildGenesisState_accounts] at haccounts
    simp only [List.map_cons, List.map_nil, List.cons.injEq, and_true, AccountDto.json,
      Json.obj.injEq, Prod.mk.injEq, wordJson_inj, exportAccount, verifiedAccount] at haccounts
    exact haccounts.2.1.2
  · rintro ⟨rfl, rfl⟩
    rw [freshState, List.foldl_nil, seedCanonicalDevnetGenesis_state, buildGenesisState_refresh]

-- A node boots from genesis where no token of its list is cut, and again from whatever snapshot
-- it saved.
theorem exists_boot_fresh {l : List Address} (hl : e.validators = some l) (now : U64) :
    ∃ fresh, boot host parseU256 proposerKey e now none = some fresh := by
  simp only [boot, Option.filter_none, seedGenesisValidators, hl, Option.map_some]
  exact ⟨_, rfl⟩

theorem exists_boot_restored (hparse : ∀ v : U256, parseU256 (decimal v) = some v)
    (e : GenesisEnv) (now genesisTime : U64) (chain : Chain) :
    ∃ restored, boot host parseU256 proposerKey e now
      (some (chain.exportSnapshot DEVNET_CHAIN_ID genesisTime)) = some restored := by
  obtain ⟨s, hs⟩ := exists_imported chain.inner.state
  have hload := fromSnapshot_exportSnapshot hparse host proposerKey DEVNET_CHAIN_ID genesisTime hs
  have hchain : (chain.exportSnapshot DEVNET_CHAIN_ID genesisTime).chainId = DEVNET_CHAIN_ID := rfl
  rw [boot, Option.filter_some, if_pos (by simpa using hchain)]
  dsimp only
  rw [hload]
  exact ⟨_, rfl⟩

-- The anchor a node serves is the same before and after a restart just where it lists no
-- validator that is well formed, and resolves the same genesis time both times.
theorem genesis_anchor_rebuilt_iff {now now' : U64} {snap : ChainSnapshot}
    {steps steps' : List NodeStep}
    (hfresh : boot host parseU256 proposerKey e now none = some fresh)
    (hruns : ∀ a ∈ steps, a.Runs)
    (hrun : fresh.nodeRun host parseU256 validatorOverride steps = some ran)
    (hsnap : snap.chainId = DEVNET_CHAIN_ID)
    (hrestored : boot host parseU256 proposerKey e now' (some snap) = some restored)
    (hruns' : ∀ a ∈ steps', a.Runs)
    (hrun' : restored.nodeRun host parseU256 validatorOverride steps' = some again) :
    again.servedAnchor = ran.servedAnchor ↔
      e.validators = some [] ∧ e.resolveTime now' = e.resolveTime now := by
  obtain ⟨l, hl, hsealed⟩ := boot_fresh hfresh
  have hran := genesisAnchor_nodeRun hruns hsealed hrun
  have hagain := genesisAnchor_nodeRun hruns' (boot_restored hsnap hrestored) hrun'
  rw [Chain.servedAnchor, Chain.servedAnchor, hran, hagain, Option.map_some, Option.map_some,
    Option.some.injEq, buildGenesisAnchor_freshState, hl, Option.some.injEq]

end

-- A node that pins the genesis time and lists no validator, and one that lists a validator.
def pinnedEnv : GenesisEnv := ⟨some "1700000000", none⟩

def validatorEnv : GenesisEnv :=
  ⟨some "1700000000", some "0x0000000000000000000000000000000000000001"⟩

theorem genesis_anchor_rebuilt_pinned :
    ∃ fresh ran restored,
      boot devnetHost parseDecimalU256 none pinnedEnv 0#64 none = some fresh ∧
      fresh.nodeRun devnetHost parseDecimalU256 none [.produce 1700000002#64 0#32] = some ran ∧
      boot devnetHost parseDecimalU256 none pinnedEnv 1#64
        (some (ran.exportSnapshot DEVNET_CHAIN_ID 1700000000#64)) = some restored ∧
      restored.servedAnchor = ran.servedAnchor := by
  have hsome : ((boot devnetHost parseDecimalU256 none pinnedEnv 0#64 none).bind
      (·.nodeRun devnetHost parseDecimalU256 none [.produce 1700000002#64 0#32])).isSome := by
    decide +kernel
  obtain ⟨ran, hboth⟩ := Option.isSome_iff_exists.mp hsome
  obtain ⟨fresh, hfresh, hrun⟩ := Option.bind_eq_some_iff.mp hboth
  obtain ⟨restored, hrestored⟩ := exists_boot_restored parseDecimalU256_decimal pinnedEnv 1#64
    1700000000#64 ran
  have hstay : restored.nodeRun devnetHost parseDecimalU256 none [] = some restored := rfl
  have hanchor := genesis_anchor_rebuilt_iff hfresh (by simp [NodeStep.Runs]) hrun rfl hrestored
    (by simp) hstay
  exact ⟨fresh, ran, restored, hfresh, hrun, hrestored,
    hanchor.mpr ⟨by decide +kernel, by decide +kernel⟩⟩

-- With one validator, a light client that pinned the root of the first boot refuses the second.
theorem genesis_root_changes :
    ∃ fresh restored,
      boot devnetHost parseDecimalU256 none validatorEnv 0#64 none = some fresh ∧
      boot devnetHost parseDecimalU256 none validatorEnv 1#64
        (some (fresh.exportSnapshot DEVNET_CHAIN_ID 1700000000#64)) = some restored ∧
      restored.servedAnchor.map GenesisAnchor.stateRoot ≠
        fresh.servedAnchor.map GenesisAnchor.stateRoot := by
  have hone : validatorEnv.validators = some [1#160] := by decide +kernel
  obtain ⟨fresh, hfresh⟩ := @exists_boot_fresh devnetHost _ _ _ _ hone 0#64
  obtain ⟨restored, hrestored⟩ := exists_boot_restored parseDecimalU256_decimal validatorEnv 1#64
    1700000000#64 fresh
  refine ⟨fresh, restored, hfresh, hrestored, ?_⟩
  obtain ⟨l, hl, hanchor⟩ := boot_fresh hfresh
  obtain rfl : [1#160] = l := Option.some.inj (hone.symm.trans hl)
  rw [Chain.servedAnchor, Chain.servedAnchor, boot_restored rfl hrestored, hanchor]
  decide +kernel

end Ubi2.Node
