import CodeGraph.Host.Basic

/-! A world in which runs are traced: a disk, and the requests sent so far. -/
namespace CodeGraph

/-- What a run may change: the disk, and the requests sent so far, the last one first. -/
structure World where
  disk : Disk
  sent : List Web.Request
  deriving Inhabited

/-- What a run may not change: the answers of the web, the settings, the time, and the seconds that
the run takes. -/
structure Surroundings where
  answer : Web.Request → Option Web.Response
  settings : List (String × String)
  time : Time
  elapsed : Nat

namespace World

def change (operation : Disk → Except DiskError Disk) : StateM World (Except DiskError Unit) :=
  fun world =>
    match operation world.disk with
    | .ok disk => (.ok (), { world with disk })
    | .error error => (.error error, world)

def send (answer : Web.Request → Option Web.Response) (request : Web.Request) :
    StateM World (Option Web.Response) :=
  fun world => (answer request, { world with sent := request :: world.sent })

def look (question : Disk → α) : StateM World α := fun world => (question world.disk, world)

end World

namespace Host

def ofWorld (surroundings : Surroundings) : Host (StateM World) where
  hasItem path := World.look (·.hasItem path)
  hasFolder path := World.look (·.hasFolder path)
  read path := World.look (·.read path)
  write path content := World.change (·.write path content)
  makeFolders path := World.change (·.makeFolders path)
  removeFolder path := World.change (·.removeFolder path)
  survey path := World.look (·.survey? path)
  readNearest name := World.look fun disk => (disk.read name).toOption
  send := World.send surroundings.answer
  setting name := pure (surroundings.settings.lookup name)
  now := pure surroundings.time
  elapsed := pure surroundings.elapsed

end Host

end CodeGraph
