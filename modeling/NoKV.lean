import NoKV.Agent.Glob
import NoKV.Client.AppendLayout
import NoKV.Client.BodyDigest
import NoKV.Control.LocalRefine
import NoKV.Control.Upload
import NoKV.Meta.Engine.CatchUp
import NoKV.Meta.Engine.CommandDigest
import NoKV.Meta.Engine.Failure
import NoKV.Meta.Engine.Noninterference
import NoKV.Meta.Engine.RootLifecycle
import NoKV.Meta.IndexKey
import NoKV.Meta.Query
import NoKV.Server.Access
import NoKV.Server.Barrier
import NoKV.Server.CoveringRounds
import NoKV.Server.RouteOrder
import NoKV.Store.CheckpointCrash
