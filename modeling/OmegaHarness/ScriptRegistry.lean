import OmegaHarness.SnapshotWalkers

/-!
# The script registry

The scripts of a snapshot are the credentials of its entries, put into a map by their
hashes. An entry of the map is never replaced, so under each hash stands the first
credential which has it, and the map is read out in the order of the hashes.
-/
namespace OmegaHarness.ScriptRegistry
open BundleAssembly CborHeads DomainHashes KeyedTables LeafEncodings SnapshotWalkers

/-- The credentials which are not null, in the order of the entries. -/
def credentials (es : List SnapshotEntry) : List ScriptCredential :=
  es.filterMap SnapshotEntry.credential

def scriptEntry (credential : ScriptCredential) : ScriptEntry :=
  ⟨credential.hash,0,credential.size,credential.language⟩

/-- The first credential with a hash. -/
def firstWith (hash : Hash28) (cs : List ScriptCredential) : Option ScriptCredential :=
  cs.find? fun credential => credential.hash = hash

theorem firstWith_hash {hash : Hash28} {cs : List ScriptCredential} {credential : ScriptCredential}
    (h : firstWith hash cs = some credential) : credential.hash = hash := by
  have hfound := List.find?_some h
  exact of_decide_eq_true hfound

theorem firstWith_isSome {hash : Hash28} {cs : List ScriptCredential} :
    (∃ credential, firstWith hash cs = some credential) ↔
      hash ∈ cs.map ScriptCredential.hash := by
  rw [← Option.isSome_iff_exists,firstWith,List.find?_isSome,List.mem_map]
  simp only [decide_eq_true_eq]

/-- The walk puts the credentials into the map one after the other. -/
theorem foldl_register (es : List SnapshotEntry) (seen : Scripts) :
    es.foldl (fun seen e => register seen e.credential) seen =
      (credentials es).foldl
        (fun seen credential => orInsert credential.hash (scriptEntry credential) seen) seen := by
  induction es generalizing seen with
  | nil => rfl
  | cons e es ih =>
      rw [List.foldl_cons,ih]
      cases hcredential : e.credential with
      | none =>
          have hskip : credentials (e::es) = credentials es := List.filterMap_cons_none hcredential
          rw [hskip]
          rfl
      | some credential =>
          have hcons : credentials (e::es) = credential::credentials es :=
            List.filterMap_cons_some hcredential
          rw [hcons]
          rfl

theorem lookup_registered (es : List SnapshotEntry) (hash : Hash28) :
    (es.foldl (fun seen e => register seen e.credential) ∅).lookup hash =
      (firstWith hash (credentials es)).map scriptEntry := by
  rw [foldl_register,lookup_foldl_orInsert,Finmap.lookup_empty,Option.none_or]
  rfl

section
variable {r : MapReader} {cbor : Vec UInt8} {scripts : List ScriptEntry}

/-- What the walk returns, entry by entry. -/
theorem ingestScripts_entries (h : r.FollowsRfc) (hok : ingestScripts r cbor.val = .ok scripts) :
    ∃ es, readSnapshot r cbor.val = .ok es ∧
      (scripts.Pairwise fun a b => a.scriptHash < b.scriptHash) ∧
      ∀ entry, entry ∈ scripts ↔
        ∃ credential, firstWith entry.scriptHash (credentials es) = some credential ∧
          entry = scriptEntry credential := by
  obtain ⟨es,hes,-,rfl⟩ := (ingestScripts_ok h).mp hok
  have hrow (hash : Hash28) (entry : ScriptEntry) :
      (hash,entry) ∈ sortedRows (es.foldl (fun seen e => register seen e.credential) ∅) ↔
        ∃ credential, firstWith hash (credentials es) = some credential ∧
          entry = scriptEntry credential := by
    rw [mem_sortedRows,lookup_registered,Option.map_eq_some_iff]
    simp only [eq_comm]
  have hkey (row : Hash28 × ScriptEntry)
      (hmem : row ∈ sortedRows (es.foldl (fun seen e => register seen e.credential) ∅)) :
      row.2.scriptHash = row.1 := by
    obtain ⟨credential,hfirst,hentry⟩ := (hrow row.1 row.2).mp hmem
    rw [hentry]
    exact firstWith_hash hfirst
  refine ⟨es,hes,?_,?_⟩
  · refine List.pairwise_map.mpr ((sortedRows_ascending _).imp_of_mem ?_)
    intro a b ha hb hlt
    rw [hkey a ha,hkey b hb]
    exact hlt
  · intro entry
    rw [← hrow entry.scriptHash entry,List.mem_map]
    constructor
    · intro hmem
      obtain ⟨row,hmem,rfl⟩ := hmem
      rw [hkey row hmem]
      exact hmem
    · intro hmem
      exact ⟨_,hmem,rfl⟩

/-- The registry ascends strictly by hash. Its hashes are those of the credentials of the
entries, and each stands with the language and the size of the first credential with it. -/
theorem scripts_first_wins (h : r.FollowsRfc) (hok : ingestScripts r cbor.val = .ok scripts) :
    ∃ es, readSnapshot r cbor.val = .ok es ∧
      (scripts.Pairwise fun a b => a.scriptHash < b.scriptHash) ∧
      (∀ hash, hash ∈ scripts.map ScriptEntry.scriptHash ↔
        hash ∈ (credentials es).map ScriptCredential.hash) ∧
      ∀ entry ∈ scripts, firstWith entry.scriptHash (credentials es) =
        some ⟨entry.scriptHash,entry.language,entry.scriptSizeBytes⟩ := by
  obtain ⟨es,hes,hascending,hentries⟩ := ingestScripts_entries h hok
  refine ⟨es,hes,hascending,?_,?_⟩
  · intro hash
    rw [← firstWith_isSome,List.mem_map]
    constructor
    · intro hmem
      obtain ⟨entry,hentry,rfl⟩ := hmem
      obtain ⟨credential,hfirst,-⟩ := (hentries entry).mp hentry
      exact ⟨credential,hfirst⟩
    · intro hfound
      obtain ⟨credential,hfirst⟩ := hfound
      have hhash : (scriptEntry credential).scriptHash = hash := firstWith_hash hfirst
      exact ⟨scriptEntry credential,(hentries _).mpr ⟨credential,by rw [hhash,hfirst],rfl⟩,hhash⟩
  · intro entry hentry
    obtain ⟨credential,hfirst,heq⟩ := (hentries entry).mp hentry
    rw [hfirst,heq]
    rfl

end

/-- An output with no assets and a script. -/
def scriptedEntry (hash language size : UInt8) : Bytes :=
  [0x86,0x58,0x20]++List.replicate 32 1++[0x00,0x58,0x20]++List.replicate 32 2++
    [0x05,0xa0,0x83,0x58,0x1c]++List.replicate 28 hash++[language,size]

/-- The first script comes twice, the second time in another language. -/
def repeatedScript : Vec UInt8 :=
  ⟨[0x83]++scriptedEntry 9 1 3++scriptedEntry 4 2 5++scriptedEntry 9 2 7,by decide +kernel⟩

def scriptedOutput (hash language : UInt8) (size : UInt32) : SnapshotEntry :=
  ⟨⟨6,Vector.replicate 32 1,0,List.replicate 32 2,5⟩,[],
    some ⟨Vector.replicate 28 hash,language,size⟩⟩

theorem repeated_script_first_wins :
    ∃ scripts, ingestScripts reference repeatedScript.val = .ok scripts ∧
      ∃ entry ∈ scripts, entry.scriptHash = Vector.replicate 28 9 ∧ entry.language = 1 ∧
        entry.scriptSizeBytes = 3 := by
  have hread : readSnapshot reference repeatedScript.val =
      .ok [scriptedOutput 9 1 3,scriptedOutput 4 2 5,scriptedOutput 9 2 7] := by
    decide +kernel
  have hok := (ingestScripts_ok reference_follows).mpr
    ⟨_,hread,fun e he => by revert e; decide +kernel,rfl⟩
  refine ⟨_,hok,?_⟩
  obtain ⟨es,hes,-,hhashes,hfirst⟩ := scripts_first_wins reference_follows hok
  rw [hread] at hes
  cases hes
  obtain ⟨entry,hentry,hhash⟩ := List.mem_map.mp ((hhashes (Vector.replicate 28 9)).mpr (by decide))
  have hcomputed : firstWith (Vector.replicate 28 9)
      (credentials [scriptedOutput 9 1 3,scriptedOutput 4 2 5,scriptedOutput 9 2 7]) =
      some ⟨Vector.replicate 28 9,1,3⟩ := by
    decide
  have hcredential := hfirst entry hentry
  rw [hhash,hcomputed,Option.some.injEq,ScriptCredential.mk.injEq] at hcredential
  exact ⟨entry,hentry,hhash,hcredential.2.1.symm,hcredential.2.2.symm⟩

end OmegaHarness.ScriptRegistry
