import PluginHost.Work.Compiling
import PluginHost.Work.Fetching
import PluginHost.Work.Installing
import PluginHost.Work.Opening
import PluginHost.Work.Resolving

/-! What a task does when it begins a job and when a stage of a job gets its outcome. -/
namespace PluginHost

/-- The first move of a job. A task that it launches gets the number `fresh`. -/
def Job.begin (fresh : TaskId) (j : Job) (c : Workspace) : Workspace × Move :=
  match j with
  | .openStore contextId => Work.openStore fresh contextId c
  | .copyProject contextId => Work.copyProject contextId c
  | .fetch path contextId => Work.fetch fresh path contextId c
  | .download path contextId => Work.download path contextId c
  | .recover f contextId => Work.recover f contextId c
  | .resolve w => Work.resolve w c
  | .install w => Work.install fresh w c
  | .installFresh w => Work.attempt ⟨w, 0⟩ c
  | .installOne w => Work.installOne w c
  | .installAll n => Work.installAll n c
  | .compile r => Work.compile r c
  | .compilePayload payload => Work.compilePayload payload c
  | .handle payload => (c, .call .compileHandled (.compilePayload payload))
  | .warmup => Work.warmup c

/-- The next move of a stage that has its outcome. -/
def Stage.resume (s : Stage) (o : Outcome) (c : Workspace) : Workspace × Move :=
  match s with
  | .passOn => (c, .finish o)
  | .storeAwaited task => Work.storeAwaited task o c
  | .projectCopied => Work.projectCopied o c
  | .downloadOwned path => Work.downloadOwned path o c
  | .downloaded path contextId => Work.downloaded path contextId o c
  | .metadataTried => Work.metadataTried o c
  | .recovered path => Work.recovered path o c
  | .literalTried w => Work.literalTried w o c
  | .prefixedTried w candidate => Work.prefixedTried w candidate o c
  | .installOwned key => Work.installOwned key o c
  | .storeReady i => Work.storeReady i o c
  | .named i => Work.named i o c
  | .fetched i canonical => Work.fetched i canonical o c
  | .evaluationMended i => Work.evaluationMended i o c
  | .oneTried w => Work.oneTried w o c
  | .macrosReady n => Work.macrosReady n o c
  | .pluginsInstalled n round => Work.pluginsInstalled n round o c
  | .presetsInstalled n round => Work.presetsInstalled n round o c
  | .needsInstalled comp => Work.needsInstalled comp o c
  | .transformed comp => Work.transformed comp o c
  | .storeOpened comp => Work.storeOpened comp o c
  | .engineMended comp => Work.engineMended comp o c
  | .compileHandled => Work.compileHandled o c
  | .warm => Work.warm o c

end PluginHost
